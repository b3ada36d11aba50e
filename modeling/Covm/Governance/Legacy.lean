import Covm.Governance.PassRules
import Covm.Number.Order

/-!
# Thresholds of before the percentages

`new_backwards_compatible` takes a threshold of 64 bits for a percentage. It narrows the threshold
to 8 bits before it caps it at 100, and a threshold of which the last 8 bits are below 100 does not
reach the cap: 256 becomes no threshold at all.
-/

namespace Covm

def ProposalLifecycle.newBackwardsCompatible {I : Type} (now : DateTime) (id : String) (creator : I)
    (title : String) (quorum threshold : UInt64) (discussionDuration : Option Duration)
    (requiredParticipants : Option Nat) : ProposalLifecycle I :=
  let quorumMethod : QuorumMethod :=
    if quorum = 0 then .none
    else if quorum ≤ 100 then .percentage quorum.toUInt8.toNat
    else .fixedNumber quorum.toNat
  -- `(threshold as u8).min(100)`
  let approvalThreshold := min threshold.toUInt8.toNat 100
  new now id creator title quorumMethod approvalThreshold .equal discussionDuration
    requiredParticipants

namespace Governance

/-- The proposal made of each threshold, all else being the same. -/
structure Legacy (I : Type) where
  now : DateTime
  id : String
  creator : I
  title : String
  quorum : UInt64
  discussionDuration : Option Duration
  requiredParticipants : Option Nat

namespace Legacy
variable {I : Type} (l : Legacy I)

def proposal (threshold : UInt64) : ProposalLifecycle I :=
  .newBackwardsCompatible l.now l.id l.creator l.title l.quorum threshold l.discussionDuration
    l.requiredParticipants

/-- What a threshold meant before it became a percentage. -/
structure KeepsMeaning (threshold : UInt64) : Prop where
  capped : (l.proposal threshold).approvalThreshold = min threshold.toNat 100
  /-- Some of the votes are yes. -/
  needsYes : 1 ≤ threshold → ∀ yesWeight totalWeight : Binary64,
    Number.eq yesWeight (Number.ofNat 0) = true → Number.gt totalWeight (Number.ofNat 0) = true →
      isThresholdMet (l.proposal threshold) yesWeight totalWeight = false
  /-- What passes with this threshold passes with any smaller one. -/
  monotone : ∀ smaller ≤ threshold, ∀ yesWeight totalWeight : Binary64,
    isThresholdMet (l.proposal threshold) yesWeight totalWeight = true →
      isThresholdMet (l.proposal smaller) yesWeight totalWeight = true

theorem approvalThreshold_proposal (threshold : UInt64) :
    (l.proposal threshold).approvalThreshold = min (threshold.toNat % 256) 100 := by
  show min threshold.toUInt8.toNat 100 = _
  rw [UInt64.toNat_toUInt8]

/-- The cap is there for all but the thresholds that the narrowing brings below it. -/
theorem capped_iff {threshold : Nat} : min (threshold % 256) 100 = min threshold 100 ↔
    threshold < 256 ∨ 100 ≤ threshold % 256 := by
  omega

theorem lt_precision {n : Nat} (h : n ≤ 100) : n < 2 ^ Format.binary64.precision :=
  h.trans_lt (by decide)

theorem isThresholdMet_zero {p : ProposalLifecycle I} (hpos : 0 < p.approvalThreshold)
    (hle : p.approvalThreshold ≤ 100) {yesWeight totalWeight : Binary64}
    (hyes : Number.eq yesWeight (Number.ofNat 0) = true)
    (htotal : Number.gt totalWeight (Number.ofNat 0) = true) :
    isThresholdMet p yesWeight totalWeight = false := by
  unfold isThresholdMet
  split_ifs
  · rfl
  · exact Ieee.ge_zero_percent hyes htotal hpos (lt_precision hle) (lt_precision le_rfl)

theorem isThresholdMet_mono {p q : ProposalLifecycle I}
    (h : q.approvalThreshold ≤ p.approvalThreshold) (hp : p.approvalThreshold ≤ 100)
    {yesWeight totalWeight : Binary64} (hmet : isThresholdMet p yesWeight totalWeight = true) :
    isThresholdMet q yesWeight totalWeight = true := by
  unfold isThresholdMet at hmet ⊢
  split_ifs at hmet ⊢ with hvotes
  exact Ieee.ge_ofNat_mono h (lt_precision hp) hmet

/-- A threshold keeps its meaning iff the narrowing does not bring it below the cap. -/
theorem keepsPercentage_iff (threshold : UInt64) : l.KeepsMeaning threshold ↔
    threshold.toNat < 256 ∨ 100 ≤ threshold.toNat % 256 := by
  rw [← capped_iff]
  constructor
  · intro h
    rw [← l.approvalThreshold_proposal]
    exact h.capped
  · intro h
    have hcapped : (l.proposal threshold).approvalThreshold = min threshold.toNat 100 :=
      (l.approvalThreshold_proposal threshold).trans h
    have hle : (l.proposal threshold).approvalThreshold ≤ 100 := hcapped.trans_le (min_le_right _ _)
    refine ⟨hcapped, ?_, ?_⟩
    · intro hthreshold yesWeight totalWeight
      refine isThresholdMet_zero ?_ hle
      have hone : 1 ≤ threshold.toNat := hthreshold
      rw [hcapped]
      exact lt_min hone (by decide)
    · intro smaller hsmaller yesWeight totalWeight
      refine isThresholdMet_mono ?_ hle
      have hnat : smaller.toNat ≤ threshold.toNat := hsmaller
      rw [hcapped, l.approvalThreshold_proposal]
      exact min_le_min_right 100 ((Nat.mod_le _ _).trans hnat)

/-- 256 becomes 0. -/
theorem not_keepsPercentage :
    ¬ ∀ threshold, Legacy.KeepsMeaning ⟨0, "p1", "alice", "budget", 0, none, none⟩ threshold := by
  intro h
  exact absurd (h 256).capped (by decide)

end Legacy

end Governance

end Covm
