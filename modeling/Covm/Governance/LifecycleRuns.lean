import Covm.Governance.Lifecycle
import Mathlib.Data.List.Chain

/-!
# Runs of a proposal's life

`Tracked` is the invariant of the plain methods under a clock that never goes back: the history
starts with a draft, ends with the present state and goes along `Follows`, and it tells when the
vote was to end. Every way to make the history longer goes through `Tracked.push`. The
vote-checked transitions keep to the same edges but not to the time: `entersEarly_iff` says exactly
when one of them executes a proposal before its vote has ended.
-/

namespace Covm

open Partial

/-- The phase of a state; it never decreases. -/
def ProposalState.phase : ProposalState → Nat
  | .draft => 0
  | .openForFeedback => 1
  | .voting => 2
  | .executed => 3
  | .rejected => 3
  | .expired => 3

/-- The transitions. -/
inductive ProposalState.Edge : ProposalState → ProposalState → Prop where
  | opened : Edge .draft .openForFeedback
  | votingStarted : Edge .openForFeedback .voting
  | executed : Edge .voting .executed
  | rejected : Edge .voting .rejected
  | expired : Edge .voting .expired

/-- Two states one after the other in a history. -/
def ProposalState.Follows (a b : ProposalState) : Prop := a = b ∨ ProposalState.Edge a b

theorem ProposalState.Follows.phase_le {a b : ProposalState} (h : a.Follows b) :
    a.phase ≤ b.phase := by
  obtain rfl | h := h
  · exact le_refl _
  · cases h <;> decide

namespace ProposalLifecycle

variable {I : Type}

structure Tracked (s : Timed I) : Prop where
  first : ∃ t, s.proposal.history.head? = some (t, .draft)
  last : ∃ t, s.proposal.history.getLast? = some (t, s.proposal.state)
  ordered : s.proposal.history.Pairwise fun a b => a.1 ≤ b.1
  linked : s.proposal.history.IsChain fun a b => a.2.Follows b.2
  past : ∀ x ∈ s.proposal.history, x.1 ≤ s.clock s.reads
  phases : ∀ x ∈ s.proposal.history, x.2.phase ≤ s.proposal.state.phase
  expiry : s.proposal.expiresAt.isSome ↔ ∃ t, (t, .voting) ∈ s.proposal.history
  due : s.proposal.allowEarlyExecution = false → ∀ t, (t, .executed) ∈ s.proposal.history →
    ∃ e, s.proposal.expiresAt = some e ∧ e ≤ t
  lapsed : ∀ t, (t, .expired) ∈ s.proposal.history → ∃ e, s.proposal.expiresAt = some e ∧ e < t

/-- A proposal whose history has one more entry. -/
structure Pushed (s : Timed I) (t : DateTime) (state : ProposalState) (s' : Timed I) : Prop where
  history : s'.proposal.history = s.proposal.history ++ [(t, state)]
  state : s'.proposal.state = state
  early : s'.proposal.allowEarlyExecution = s.proposal.allowEarlyExecution
  after : s.clock s.reads ≤ t
  before : t ≤ s'.clock s'.reads

variable {s s' : Timed I}

theorem Tracked.push {t : DateTime} {state : ProposalState} (h : Tracked s)
    (hpush : Pushed s t state s') (hfollows : s.proposal.state.Follows state)
    (hexpiry : s'.proposal.expiresAt.isSome ↔
      s.proposal.expiresAt.isSome ∨ state = .voting)
    (hsame : 2 ≤ s.proposal.state.phase → s'.proposal.expiresAt = s.proposal.expiresAt)
    (hdue : state = .executed → s.proposal.allowEarlyExecution = false →
      ∃ e, s'.proposal.expiresAt = some e ∧ e ≤ t)
    (hlapsed : state = .expired → ∃ e, s'.proposal.expiresAt = some e ∧ e < t) : Tracked s' where
  first := by
    obtain ⟨t₀, hfirst⟩ := h.first
    exact ⟨t₀, by rw [hpush.history, List.head?_append, hfirst]; rfl⟩
  last := ⟨t, by rw [hpush.history, hpush.state, List.getLast?_concat]⟩
  ordered := by
    rw [hpush.history, List.pairwise_append]
    refine ⟨h.ordered, List.pairwise_singleton _ _, fun x hx y hy => ?_⟩
    obtain rfl := List.mem_singleton.mp hy
    exact (h.past x hx).trans hpush.after
  linked := by
    obtain ⟨t₀, hlast⟩ := h.last
    rw [hpush.history, List.isChain_append]
    refine ⟨h.linked, List.isChain_singleton _, fun x hx y hy => ?_⟩
    rw [hlast] at hx
    cases hx
    cases hy
    exact hfollows
  past := by
    intro x hx
    rw [hpush.history, List.mem_append, List.mem_singleton] at hx
    obtain hx | rfl := hx
    · exact (h.past x hx).trans (hpush.after.trans hpush.before)
    · exact hpush.before
  phases := by
    intro x hx
    rw [hpush.history, List.mem_append, List.mem_singleton] at hx
    rw [hpush.state]
    obtain hx | rfl := hx
    · exact (h.phases x hx).trans hfollows.phase_le
    · exact le_refl _
  expiry := by
    rw [hexpiry, h.expiry, hpush.history]
    simp only [List.mem_append, List.mem_singleton, Prod.mk.injEq, exists_or]
    exact or_congr_right ⟨fun hv => ⟨t, rfl, hv.symm⟩, fun ⟨_, _, hv⟩ => hv.symm⟩
  due := by
    intro hearly t' ht'
    rw [hpush.early] at hearly
    rw [hpush.history, List.mem_append, List.mem_singleton, Prod.mk.injEq] at ht'
    obtain ht' | ⟨rfl, hstate⟩ := ht'
    · have hphase : 3 ≤ s.proposal.state.phase := h.phases _ ht'
      rw [hsame (by omega)]
      exact h.due hearly t' ht'
    · exact hdue hstate.symm hearly
  lapsed := by
    intro t' ht'
    rw [hpush.history, List.mem_append, List.mem_singleton, Prod.mk.injEq] at ht'
    obtain ht' | ⟨rfl, hstate⟩ := ht'
    · have hphase : 3 ≤ s.proposal.state.phase := h.phases _ ht'
      rw [hsame (by omega)]
      exact h.lapsed t' ht'
    · exact hlapsed hstate.symm

/-- What a call does not record leaves the history as it is. -/
theorem Tracked.kept (h : Tracked s) (hclock : Monotone s.clock) (hkept : Kept s s') :
    Tracked s' where
  first := hkept.proposal ▸ h.first
  last := hkept.proposal ▸ h.last
  ordered := hkept.proposal ▸ h.ordered
  linked := hkept.proposal ▸ h.linked
  past := by
    rw [hkept.proposal, hkept.clock]
    exact fun x hx => (h.past x hx).trans (hclock hkept.later)
  phases := hkept.proposal ▸ h.phases
  expiry := hkept.proposal ▸ h.expiry
  due := hkept.proposal ▸ h.due
  lapsed := hkept.proposal ▸ h.lapsed

theorem Entered.pushed {i : Nat} {state : ProposalState} (h : Entered s i state s')
    (hclock : Monotone s.clock) : Pushed s (s.clock i) state s' where
  history := by rw [h.proposal]; rfl
  state := by rw [h.proposal]; rfl
  early := by rw [h.proposal]; rfl
  after := hclock h.started
  before := by
    rw [h.clock]
    exact hclock h.later.le

theorem Entered.expiresAt {i : Nat} {state : ProposalState} (h : Entered s i state s') :
    s'.proposal.expiresAt = s.proposal.expiresAt := by rw [h.proposal]; rfl

/-- One step: what a plain method does keeps the history right. -/
theorem Tracked.step (h : Tracked s) (hclock : Monotone s.clock) {c : Call}
    (heffect : Effect s (.plain c) s') : Tracked s' := by
  have hearlier : ∀ {i}, s.reads ≤ i → s.clock s.reads ≤ s.clock i := fun hi => hclock hi
  cases heffect with
  | kept _ _ hkept => exact h.kept hclock hkept
  | opened i hstate hentered =>
    refine h.push (hentered.pushed hclock) ?_ ?_ (fun _ => hentered.expiresAt) nofun nofun
    · rw [hstate]
      exact .inr .opened
    · rw [hentered.expiresAt]
      simp
  | votingStarted d e i hstate _ hentered =>
    have hpush := hentered.pushed hclock
    refine h.push ⟨hpush.history, hpush.state, hpush.early, hpush.after, hpush.before⟩ ?_ ?_ ?_
      nofun nofun
    · rw [hstate]
      exact .inr .votingStarted
    · rw [hentered.expiresAt]
      simp [endingAt]
    · -- the vote has not been opened before
      rw [hstate]
      intro hphase
      exact absurd hphase (by decide)
  | executed i hstate hdue hentered =>
    have hexpiry : s.proposal.expiresAt.isSome := by
      obtain ⟨t, hlast⟩ := h.last
      rw [h.expiry, ← hstate]
      exact ⟨t, List.mem_of_getLast? hlast⟩
    refine h.push (hentered.pushed hclock) ?_ ?_ (fun _ => hentered.expiresAt) ?_ nofun
    · rw [hstate]
      exact .inr .executed
    · rw [hentered.expiresAt]
      simp
    · intro _ hearly
      obtain ⟨e, he⟩ := Option.isSome_iff_exists.mp hexpiry
      obtain hallowed | hdue := hdue
      · rw [hearly] at hallowed
        cases hallowed
      · exact ⟨e, hentered.expiresAt.trans he, (hdue e he).trans (hearlier hentered.started)⟩
  | rejected i hstate hentered =>
    refine h.push (hentered.pushed hclock) ?_ ?_ (fun _ => hentered.expiresAt) nofun nofun
    · rw [hstate]
      exact .inr .rejected
    · rw [hentered.expiresAt]
      simp
  | expired _ e i _ hstate hexpiry hlate hentered =>
    refine h.push (hentered.pushed hclock) ?_ ?_ (fun _ => hentered.expiresAt) nofun ?_
    · rw [hstate]
      exact .inr .expired
    · rw [hentered.expiresAt]
      simp
    · intro _
      exact ⟨e, hentered.expiresAt.trans hexpiry, hlate.trans_le (hearlier hentered.started)⟩
  | updated i hentered =>
    have hpush := hentered.pushed hclock
    have hsame : s'.proposal.expiresAt = s.proposal.expiresAt := hentered.expiresAt
    have hlast := h.last
    refine h.push ⟨hpush.history, hpush.state, hpush.early, hpush.after, hpush.before⟩ (.inl rfl)
      ?_ (fun _ => hsame) ?_ ?_
    · rw [hsame, h.expiry]
      refine ⟨.inl, ?_⟩
      rintro (hvoting | hstate)
      · exact hvoting
      · obtain ⟨t, hlast⟩ := hlast
        rw [hstate] at hlast
        exact ⟨t, List.mem_of_getLast? hlast⟩
    · intro hstate hearly
      obtain ⟨t, hlast⟩ := hlast
      rw [hstate] at hlast
      obtain ⟨e, he, hle⟩ := h.due hearly t (List.mem_of_getLast? hlast)
      exact ⟨e, hsame.trans he, hle.trans
        ((h.past _ (List.mem_of_getLast? hlast)).trans (hearlier hentered.started))⟩
    · intro hstate
      obtain ⟨t, hlast⟩ := hlast
      rw [hstate] at hlast
      obtain ⟨e, he, hlt⟩ := h.lapsed t (List.mem_of_getLast? hlast)
      exact ⟨e, hsame.trans he, hlt.trans_le
        ((h.past _ (List.mem_of_getLast? hlast)).trans (hearlier hentered.started))⟩

/-! ## Runs of the plain methods -/

/-- A new proposal, made at the next reading of the clock, with the settings it is given before
anything else happens to it. -/
def start (clock : Nat → DateTime) (reads : Nat) (id : String) (creator : I) (title : String)
    (quorumMethod : QuorumMethod) (approvalThreshold : Nat) (voteWeighting : VoteWeighting)
    (discussionDuration : Option Duration) (requiredParticipants : Option Nat)
    (autoExecute allowEarlyExecution : Bool) (minVotingPeriod : Option Duration) : Timed I where
  proposal := { new (clock reads) id creator title quorumMethod approvalThreshold voteWeighting
      discussionDuration requiredParticipants with
    autoExecute := autoExecute
    allowEarlyExecution := allowEarlyExecution
    minVotingPeriod := minVotingPeriod }
  clock := clock
  reads := reads + 1

/-- What `new` leaves for the methods to work on. -/
structure Started (s : Timed I) : Prop where
  history : ∃ t, s.proposal.history = [(t, .draft)] ∧ t ≤ s.clock s.reads
  state : s.proposal.state = .draft
  expiresAt : s.proposal.expiresAt = none
  version : s.proposal.currentVersion = 1
  monotone : Monotone s.clock

theorem Started.tracked (h : Started s) : Tracked s := by
  obtain ⟨t, hhistory, hle⟩ := h.history
  constructor
  · exact ⟨t, by rw [hhistory]; rfl⟩
  · exact ⟨t, by rw [hhistory, h.state]; rfl⟩
  · rw [hhistory]
    exact List.pairwise_singleton _ _
  · rw [hhistory]
    exact List.isChain_singleton _
  · simp [hhistory, hle]
  · simp [hhistory, h.state]
  · simp [hhistory, h.expiresAt]
  · simp [hhistory]
  · simp [hhistory]

theorem start_started {clock : Nat → DateTime} (hclock : Monotone clock) (reads : Nat)
    (id : String) (creator : I) (title : String) (quorumMethod : QuorumMethod)
    (approvalThreshold : Nat) (voteWeighting : VoteWeighting) (discussionDuration : Option Duration)
    (requiredParticipants : Option Nat) (autoExecute allowEarlyExecution : Bool)
    (minVotingPeriod : Option Duration) :
    Started (start clock reads id creator title quorumMethod approvalThreshold voteWeighting
      discussionDuration requiredParticipants autoExecute allowEarlyExecution minVotingPeriod) where
  history := ⟨clock reads, rfl, hclock (Nat.le_succ reads)⟩
  state := rfl
  expiresAt := rfl
  version := rfl
  monotone := hclock

theorem Effect.clock {c : CheckedCall} (h : Effect s c s') : s'.clock = s.clock := by
  cases h with
  | kept _ _ h => exact h.clock
  | opened _ _ h => exact h.clock
  | votingStarted _ _ _ _ _ h => exact h.clock
  | executed _ _ _ h => exact h.clock
  | rejected _ _ h => exact h.clock
  | expired _ _ _ _ _ _ _ h => exact h.clock
  | updated _ h => exact h.clock
  | votedExecuted _ _ h => exact h.clock
  | votedRejected _ _ h => exact h.clock

/-- The settings, which no method changes. -/
def settings (p : ProposalLifecycle I) : Bool × Option Duration :=
  (p.allowEarlyExecution, p.minVotingPeriod)

theorem Entered.settings {i : Nat} {state : ProposalState} (h : Entered s i state s') :
    s'.proposal.settings = s.proposal.settings := by rw [h.proposal]; rfl

theorem Effect.settings {c : CheckedCall} (h : Effect s c s') :
    s'.proposal.settings = s.proposal.settings := by
  cases h with
  | kept _ _ h => rw [h.proposal]
  | opened _ _ h => exact h.settings
  | votingStarted _ _ _ _ _ h => exact h.settings
  | executed _ _ _ h => exact h.settings
  | rejected _ _ h => exact h.settings
  | expired _ _ _ _ _ _ _ h => exact h.settings
  | updated _ h => exact h.settings
  | votedExecuted _ _ h => exact h.settings
  | votedRejected _ _ h => exact h.settings

theorem tracked_of_run {calls : List Call} (h : performAll Call.perform calls s = .ok () s')
    (hs : Tracked s) (hclock : Monotone s.clock) : Tracked s' := by
  suffices hboth : Tracked s' ∧ Monotone s'.clock from hboth.1
  refine performAll_invariant (J := fun s => Tracked s ∧ Monotone s.clock) ?_ h ⟨hs, hclock⟩
  intro c s₁ s₂ hc hs₁
  have heffect := Call.effect hc
  exact ⟨hs₁.1.step hs₁.2 heffect, heffect.clock ▸ hs₁.2⟩

theorem Entered.version {i : Nat} {state : ProposalState} (h : Entered s i state s') :
    s'.proposal.currentVersion = s.proposal.currentVersion := by rw [h.proposal]; rfl

theorem Effect.version {c : Call} (h : Effect s (.plain c) s') :
    s'.proposal.currentVersion =
      s.proposal.currentVersion + if c = .updateVersion then 1 else 0 := by
  have hsame : c ≠ .updateVersion → s'.proposal.currentVersion = s.proposal.currentVersion →
      s'.proposal.currentVersion =
        s.proposal.currentVersion + if c = .updateVersion then 1 else 0 := by
    intro hc hversion
    rw [if_neg hc, hversion]
    rfl
  cases h with
  | kept _ hc h => exact hsame (fun h => hc (congrArg _ h)) (by rw [h.proposal])
  | opened _ _ h => exact hsame nofun h.version
  | votingStarted _ _ _ _ _ h => exact hsame nofun h.version
  | executed _ _ _ h => exact hsame nofun h.version
  | rejected _ _ h => exact hsame nofun h.version
  | expired _ _ _ hc _ _ _ h => exact hsame (fun h => hc (congrArg _ h)) h.version
  | updated _ h =>
    rw [if_pos rfl]
    exact h.version

theorem version_of_run {calls : List Call} (h : performAll Call.perform calls s = .ok () s') :
    s'.proposal.currentVersion = s.proposal.currentVersion + calls.count .updateVersion := by
  induction calls generalizing s with
  | nil =>
    cases h
    rfl
  | cons c calls ih =>
    obtain ⟨s₁, hc, hrest⟩ := (performAll_cons_ok Call.perform).mp h
    rw [ih hrest, (Call.effect hc).version, List.count_cons]
    simp only [beq_iff_eq]
    omega

/-- When a vote ends is said by the call that started it. -/
theorem expiry_of_run {calls : List Call} {e : DateTime}
    (h : performAll Call.perform calls s = .ok () s') (hclock : Monotone s.clock)
    (he : s'.proposal.expiresAt = some e) :
    s.proposal.expiresAt = some e ∨ ∃ before d rest s₁, calls = before ++ .startVoting d :: rest ∧
      performAll Call.perform before s = .ok () s₁ ∧
      s₁.proposal.state = .openForFeedback ∧
      s₁.clock s₁.reads + max d (s₁.proposal.minVotingPeriod.getD d) ≤ e := by
  induction calls generalizing s with
  | nil =>
    cases h
    exact .inl he
  | cons c calls ih =>
    obtain ⟨s₁, hc, hrest⟩ := (performAll_cons_ok Call.perform).mp h
    have heffect := Call.effect hc
    obtain hset | ⟨before, d, rest, s₂, rfl, hbefore, hstate, hle⟩ :=
      ih hrest (heffect.clock ▸ hclock)
    · cases heffect with
      | kept _ _ h => exact .inl (h.proposal ▸ hset)
      | opened _ _ h => exact .inl (h.expiresAt ▸ hset)
      | votingStarted d e' _ hstate hends h =>
        refine .inr ⟨[], d, calls, s, rfl, rfl, hstate, ?_⟩
        obtain ⟨j, hj, rfl⟩ := hends
        rw [h.expiresAt] at hset
        obtain rfl := Option.some.inj hset
        exact Int.add_le_add_right (hclock hj) _
      | executed _ _ _ h => exact .inl (h.expiresAt ▸ hset)
      | rejected _ _ h => exact .inl (h.expiresAt ▸ hset)
      | expired _ _ _ _ _ _ _ h => exact .inl (h.expiresAt ▸ hset)
      | updated _ h =>
        have hsame : s₁.proposal.expiresAt = s.proposal.expiresAt := h.expiresAt
        exact .inl (hsame ▸ hset)
    · exact .inr ⟨c :: before, d, rest, s₂, rfl,
        (performAll_cons_ok Call.perform).mpr ⟨s₁, hc, hbefore⟩, hstate, hle⟩

/-- The states of a proposal over any run of the plain methods. -/
theorem lifecycle_of_run {clock : Nat → DateTime} (hclock : Monotone clock) (reads : Nat)
    (id : String) (creator : I) (title : String) (quorumMethod : QuorumMethod)
    (approvalThreshold : Nat) (voteWeighting : VoteWeighting) (discussionDuration : Option Duration)
    (requiredParticipants : Option Nat) (autoExecute allowEarlyExecution : Bool)
    (minVotingPeriod : Option Duration) (calls : List Call)
    (h : performAll Call.perform calls (start clock reads id creator title quorumMethod
      approvalThreshold voteWeighting discussionDuration requiredParticipants autoExecute
      allowEarlyExecution minVotingPeriod) = .ok () s') :
    (∃ t, s'.proposal.history.head? = some (t, .draft)) ∧
    (∃ t, s'.proposal.history.getLast? = some (t, s'.proposal.state)) ∧
    (s'.proposal.history.Pairwise fun a b => a.1 ≤ b.1) ∧
    (s'.proposal.history.IsChain fun a b => a.2.Follows b.2) ∧
    (s'.proposal.expiresAt.isSome ↔ ∃ t, (t, .voting) ∈ s'.proposal.history) ∧
    (∀ e, s'.proposal.expiresAt = some e → ∃ before d rest s₁,
      calls = before ++ .startVoting d :: rest ∧
      performAll Call.perform before (start clock reads id creator title quorumMethod
        approvalThreshold voteWeighting discussionDuration requiredParticipants autoExecute
        allowEarlyExecution minVotingPeriod) = .ok () s₁ ∧
      s₁.proposal.state = .openForFeedback ∧
      clock s₁.reads + max d (minVotingPeriod.getD d) ≤ e) ∧
    (allowEarlyExecution = false → ∀ t, (t, .executed) ∈ s'.proposal.history →
      ∃ e, s'.proposal.expiresAt = some e ∧ e ≤ t) ∧
    (∀ t, (t, .expired) ∈ s'.proposal.history → ∃ e, s'.proposal.expiresAt = some e ∧ e < t) ∧
    s'.proposal.currentVersion = 1 + calls.count .updateVersion := by
  have hstarted := start_started hclock reads id creator title quorumMethod approvalThreshold
    voteWeighting discussionDuration requiredParticipants autoExecute allowEarlyExecution
    minVotingPeriod
  have hrun := h
  generalize hs : start clock reads id creator title quorumMethod approvalThreshold voteWeighting
    discussionDuration requiredParticipants autoExecute allowEarlyExecution minVotingPeriod = s₀
    at hrun hstarted ⊢
  have htracked := tracked_of_run hrun hstarted.tracked hstarted.monotone
  have hsettings : ∀ {calls : List Call} {s₁ : Timed I},
      performAll Call.perform calls s₀ = .ok () s₁ →
      s₁.proposal.settings = (allowEarlyExecution, minVotingPeriod) ∧ s₁.clock = clock := by
    intro calls s₁ h₁
    refine performAll_invariant (J := fun s => s.proposal.settings =
      (allowEarlyExecution, minVotingPeriod) ∧ s.clock = clock) ?_ h₁ (hs ▸ ⟨rfl, rfl⟩)
    intro c s s' hc hs
    have heffect := Call.effect hc
    exact ⟨heffect.settings.trans hs.1, heffect.clock.trans hs.2⟩
  refine ⟨htracked.first, htracked.last, htracked.ordered, htracked.linked, htracked.expiry, ?_, ?_,
    htracked.lapsed, ?_⟩
  · intro e he
    obtain hset | ⟨before, d, rest, s₁, hcalls, hbefore, hstate, hle⟩ :=
      expiry_of_run hrun hstarted.monotone he
    · rw [hstarted.expiresAt] at hset
      cases hset
    · obtain ⟨hset, hclock₁⟩ := hsettings hbefore
      have hmin : s₁.proposal.minVotingPeriod = minVotingPeriod := (Prod.ext_iff.mp hset).2
      rw [hclock₁, hmin] at hle
      exact ⟨before, d, rest, s₁, hcalls, hbefore, hstate, hle⟩
  · intro hearly
    exact htracked.due ((Prod.ext_iff.mp (hsettings hrun).1).1.trans hearly)
  · rw [version_of_run hrun, hstarted.version]

theorem monotone_ticks : Monotone fun n : Nat => (n : DateTime) :=
  fun _ _ h => Int.ofNat_le.mpr h

/-- A proposal that is executed when its vote has ended. -/
def executedRun : EStateM.Result Overflow (Timed Unit) Unit :=
  performAll Call.perform [.openForFeedback, .startVoting 2, .execute]
    (start (fun n => n) 0 "prop-123" () "Test Proposal" (.percentage 10) 5 .equal none none
      false false none)

theorem lifecycle_of_run_executed : (final executedRun).proposal.state = .executed ∧
    ∀ t, (t, .executed) ∈ (final executedRun).proposal.history →
      ∃ e, (final executedRun).proposal.expiresAt = some e ∧ e ≤ t := by
  have hrun : executedRun = .ok () (final executedRun) := eq_ok_of_succeeded (by decide +kernel)
  obtain ⟨-, -, -, -, -, -, hdue, -⟩ := lifecycle_of_run monotone_ticks 0 "prop-123" ()
    "Test Proposal" (.percentage 10) 5 .equal none none false false none
    [.openForFeedback, .startVoting 2, .execute] hrun
  exact ⟨by decide +kernel, hdue rfl⟩

/-! ## Runs with vote-checked transitions -/

/-- A call that executes a proposal before its vote is to end. -/
def EntersEarly (c : CheckedCall) (s : Timed I) : Prop :=
  ∃ s', c.perform s = .ok () s' ∧ s.proposal.state ≠ .executed ∧ s'.proposal.state = .executed ∧
    ∃ t e, s'.proposal.history.getLast? = some (t, .executed) ∧
      s'.proposal.expiresAt = some e ∧ t < e

/-- A vote that is counted as passed before it is to end. -/
def PassesEarly (c : CheckedCall) (s : Timed I) : Prop :=
  ∃ ticks e, c = .toExecuted ticks (.ok true) ∧ s.proposal.state = .voting ∧
    s.proposal.expiresAt = some e ∧ s.clock (s.reads + ticks) < e

theorem Entered.last {i : Nat} {state : ProposalState} (h : Entered s i state s') :
    s'.proposal.history.getLast? = some (s.clock i, state) := by
  rw [h.proposal]
  exact List.getLast?_concat

theorem Entered.state {i : Nat} {state : ProposalState} (h : Entered s i state s') :
    s'.proposal.state = state := by rw [h.proposal]; rfl

theorem toExecuted_passed (ticks : Nat) (hstate : s.proposal.state = .voting) :
    ∃ s', (CheckedCall.toExecuted ticks (.ok true)).perform s = .ok () s' ∧
      Entered s (s.reads + ticks) .executed s' := by
  obtain ⟨s', henter, hs'⟩ := enter_entered .executed { s with reads := s.reads + ticks }
  refine ⟨s', ?_, (ticks_kept s ticks).entered hs'⟩
  have htransition : transitionToExecuted ticks (.ok true) s = .ok (.ok true) s' := by
    unfold transitionToExecuted
    rw [bind_of_ok (get_apply s), if_pos hstate, bind_of_ok (checkVotes_apply ticks _ s)]
    exact bind_of_ok henter
  exact bind_of_ok htransition

theorem entersEarly_iff (c : CheckedCall) (hearly : s.proposal.allowEarlyExecution = false)
    (hclock : Monotone s.clock) : EntersEarly c s ↔ PassesEarly c s := by
  constructor
  · rintro ⟨s', hc, hbefore, hafter, t, e, hlast, he, hlt⟩
    cases CheckedCall.effect hc with
    | kept _ _ h =>
      rw [h.proposal] at hafter
      exact absurd hafter hbefore
    | opened _ _ h => exact nomatch h.state.symm.trans hafter
    | votingStarted _ _ _ _ _ h => exact nomatch h.state.symm.trans hafter
    | executed i _ hdue h =>
      -- the guard of `execute`
      obtain hallowed | hdue := hdue
      · rw [hearly] at hallowed
        cases hallowed
      · have ht := h.last.symm.trans hlast
        have hle := (hdue e (h.expiresAt ▸ he)).trans (hclock h.started)
        cases ht
        exact absurd hlt (not_lt.mpr hle)
    | rejected _ _ h => exact nomatch h.state.symm.trans hafter
    | expired _ _ _ _ _ _ _ h => exact nomatch h.state.symm.trans hafter
    | updated _ h => exact absurd (h.state.symm.trans hafter) hbefore
    | votedExecuted ticks hstate h =>
      have ht := h.last.symm.trans hlast
      cases ht
      exact ⟨ticks, e, rfl, hstate, h.expiresAt ▸ he, hlt⟩
    | votedRejected _ _ h => exact nomatch h.state.symm.trans hafter
  · rintro ⟨ticks, e, rfl, hstate, he, hlt⟩
    obtain ⟨s', hs', h⟩ := toExecuted_passed ticks hstate
    refine ⟨s', hs', ?_, h.state, s.clock (s.reads + ticks), e, h.last, h.expiresAt.trans he, hlt⟩
    rw [hstate]
    exact nofun

/-- No run executes a proposal before its vote is to end iff no vote of it is counted as passed
before then: `execute` waits for the end, `transition_to_executed` does not. -/
theorem never_early_iff (calls : List CheckedCall)
    (hearly : s.proposal.allowEarlyExecution = false) (hclock : Monotone s.clock) :
    Along CheckedCall.perform (fun c s => ¬ EntersEarly c s) calls s ↔
      Along CheckedCall.perform (fun c s => ¬ PassesEarly c s) calls s := by
  refine along_iff_along (J := fun s => s.proposal.allowEarlyExecution = false ∧ Monotone s.clock)
    ?_ ?_ ⟨hearly, hclock⟩
  · intro c s hs
    exact not_congr (entersEarly_iff c hs.1 hs.2)
  · intro c s s' hc hs
    have heffect := CheckedCall.effect hc
    have hkept : s'.proposal.allowEarlyExecution = s.proposal.allowEarlyExecution :=
      (Prod.ext_iff.mp heffect.settings).1
    exact ⟨hkept.trans hs.1, heffect.clock ▸ hs.2⟩

/-- A vote of three days that passes at once. -/
def votingProposal : Timed Unit where
  proposal :=
    { new 0 "prop-123" () "Test Proposal" (.percentage 10) 5 .equal none none with
      state := .voting
      expiresAt := some 3 }
  clock n := n
  reads := 0

/-- After the third day it may pass. -/
theorem never_early_iff_voting :
    Along CheckedCall.perform (fun c s => ¬ EntersEarly c s)
      [.plain .updateVersion, .toExecuted 4 (.ok true)] votingProposal := by
  refine (never_early_iff _ rfl monotone_ticks).mpr ⟨?_, fun s hs => ⟨?_, fun _ _ => trivial⟩⟩
  · rintro ⟨ticks, e, hcall, -⟩
    cases hcall
  · rintro ⟨ticks, e, hcall, -, he, hlt⟩
    cases hcall
    cases hs
    cases he
    exact absurd hlt (by decide)

theorem executed_early : ¬ ∀ (s : Timed Unit) (calls : List CheckedCall),
    s.proposal.allowEarlyExecution = false → Monotone s.clock →
    Along CheckedCall.perform (fun c s => ¬ EntersEarly c s) calls s := by
  intro hnever
  have hfirst := hnever votingProposal [.toExecuted 0 (.ok true)] rfl monotone_ticks
  exact hfirst.1 ((entersEarly_iff _ rfl monotone_ticks).mpr ⟨0, 3, rfl, rfl, rfl, by decide⟩)

end ProposalLifecycle

end Covm
