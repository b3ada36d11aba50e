import Covm.Governance.PassRules

/-!
# The decision to execute, as a function of the votes

In exact numbers the decision compares two ratios with two percentages: how many of the required
participants voted, and how many of the votes are yes. Neither ratio depends on the order of the
votes, and a yes vote more, or in the place of another vote, makes neither of them smaller.
-/

namespace Covm.Governance

section ratios

def participation (required total : Nat) : ℚ := if 0 < required then total / required else 1

def approval (yes total : Nat) : ℚ := if 0 < total then yes / total else 0

variable {required total total' yes : Nat}

theorem participation_mono (h : total ≤ total') :
    participation required total ≤ participation required total' := by
  unfold participation
  split_ifs
  · gcongr
  · exact le_rfl

theorem approval_nonneg : 0 ≤ approval yes total := by
  unfold approval
  split_ifs
  · positivity
  · exact le_rfl

theorem approval_zero : approval 0 total = 0 := by
  unfold approval
  split_ifs <;> simp

/-- A yes in the place of another vote. -/
theorem approval_le_replaced : approval yes total ≤ approval (yes + 1) total := by
  unfold approval
  split_ifs
  · gcongr
    exact Nat.le_succ yes
  · exact le_rfl

/-- Both the yes votes and all votes are one more. -/
theorem approval_le_added (h : yes ≤ total) : approval yes total ≤ approval (yes + 1) (total + 1) := by
  by_cases htotal : 0 < total
  · have hpos : (0 : ℚ) < total := by exact_mod_cast htotal
    have hle : (yes : ℚ) ≤ total := by exact_mod_cast h
    rw [approval, if_pos htotal, approval, if_pos total.succ_pos, div_le_div_iff₀ hpos (by positivity)]
    push_cast
    nlinarith
  · rw [approval, if_neg htotal]
    exact approval_nonneg

end ratios

/-- The decision on numbers of yes votes, no votes and abstentions. -/
def Carries (quorum threshold : ℚ) (required : Nat) : Nat × Nat × Nat → Prop
  | (y, n, a) => quorum / 100 ≤ participation required (y + n + a) ∧
      threshold / 100 ≤ approval y (y + n + a)

/-- The numbers after one more vote. -/
def counted : VoteChoice → Nat × Nat × Nat → Nat × Nat × Nat
  | .yes, (y, n, a) => (y + 1, n, a)
  | .no, (y, n, a) => (y, n + 1, a)
  | .abstain, (y, n, a) => (y, n, a + 1)

namespace Carries
variable {quorum threshold : ℚ} {required : Nat} {x : Nat × Nat × Nat}

theorem iff {y n a : Nat} : Carries quorum threshold required (y, n, a) ↔
    quorum / 100 ≤ participation required (y + n + a) ∧ threshold / 100 ≤ approval y (y + n + a) :=
  Iff.rfl

theorem yes (h : Carries quorum threshold required x) :
    Carries quorum threshold required (counted .yes x) := by
  obtain ⟨y, n, a⟩ := x
  have htotal : y + 1 + n + a = y + n + a + 1 := by omega
  refine iff.mpr ⟨h.1.trans (participation_mono (by omega)), ?_⟩
  rw [htotal]
  exact h.2.trans (approval_le_added (by omega))

/-- Another vote in the place of a vote leaves the participation as it is. -/
theorem replaced {c : VoteChoice} (h : Carries quorum threshold required (counted c x)) :
    Carries quorum threshold required (counted .yes x) := by
  obtain ⟨y, n, a⟩ := x
  cases c with
  | yes => exact h
  | no =>
    have htotal : y + (n + 1) + a = y + 1 + n + a := by omega
    rw [counted, iff, htotal] at h
    exact iff.mpr ⟨h.1, h.2.trans approval_le_replaced⟩
  | abstain =>
    have htotal : y + n + (a + 1) = y + 1 + n + a := by omega
    rw [counted, iff, htotal] at h
    exact iff.mpr ⟨h.1, h.2.trans approval_le_replaced⟩

theorem yes_pos (h : Carries quorum threshold required x) (hthreshold : 1 ≤ threshold) :
    0 < x.1 := by
  obtain ⟨y, n, a⟩ := x
  by_contra hzero
  obtain rfl : y = 0 := Nat.eq_zero_of_not_pos hzero
  have hmet := (iff.mp h).2
  rw [approval_zero] at hmet
  linarith

end Carries

/-! ### What the votes come to -/

section votes
variable {votes votes' before after : List (String × String)} {voter word : String}

theorem tally_perm (h : votes.Perm votes') : tally votes = tally votes' := by
  have hwords := h.map fun vote => toLowercase vote.2
  unfold tally
  simp only [hwords.count_eq]

theorem tally_cons {c : VoteChoice} (h : VoteChoice.fromStr word = some c) :
    tally ((voter, word) :: votes) = counted c (tally votes) := by
  have hword : toLowercase word = choiceWord c := fromStr_eq_some_iff.mp h
  cases c <;> simp [tally, counted, hword, choiceWord]

theorem tally_insert {c : VoteChoice} (h : VoteChoice.fromStr word = some c) :
    tally (before ++ (voter, word) :: after) = counted c (tally (before ++ after)) := by
  rw [← tally_cons h]
  exact tally_perm List.perm_middle

theorem exists_yes (hpos : 0 < (tally votes).1) :
    ∃ v ∈ votes, VoteChoice.fromStr v.2 = some .yes := by
  obtain ⟨v, hv, hword⟩ := List.mem_map.mp (List.count_pos_iff.mp hpos)
  exact ⟨v, hv, fromStr_eq_some_iff.mpr hword⟩

end votes

section passes
variable [NumberText ℚ] {I : Type} [VoteRequirements I ℚ]

theorem passes_iff_decides {p : ProposalLifecycle I} {votes : List (String × String)} :
    passes (F := ℚ) p votes = true ↔
      Carries (VoteRequirements.quorum p) (VoteRequirements.threshold p)
        (p.requiredParticipants.getD 1) (tally votes) := by
  unfold passes
  obtain ⟨y, n, a⟩ := tally votes
  simp only [Bool.and_eq_true, Exact.ge_iff, Exact.div_eq, Exact.ofNat_eq, Carries.iff,
    participation, approval, Nat.cast_zero, Nat.cast_one, Nat.cast_ofNat]

/-- The order of the votes does not matter, a yes vote more or in the place of a vote keeps the
proposal passed, and no proposal with a threshold of one percent passes without a yes vote. -/
theorem passes_monotone (p : ProposalLifecycle I) (votes : List (String × String)) :
    (∀ votes', votes.Perm votes' → passes (F := ℚ) p votes = passes (F := ℚ) p votes') ∧
    (passes (F := ℚ) p votes = true →
      (∀ before after voter word, votes = before ++ after → VoteChoice.fromStr word = some .yes →
        passes (F := ℚ) p (before ++ (voter, word) :: after) = true) ∧
      (∀ before after voter word word', votes = before ++ (voter, word) :: after →
        VoteChoice.fromStr word = some .no ∨ VoteChoice.fromStr word = some .abstain →
        VoteChoice.fromStr word' = some .yes →
        passes (F := ℚ) p (before ++ (voter, word') :: after) = true) ∧
      (1 ≤ (VoteRequirements.threshold p : ℚ) →
        ∃ v ∈ votes, VoteChoice.fromStr v.2 = some .yes)) := by
  refine ⟨fun votes' hperm => ?_, fun hpasses => ⟨?_, ?_, fun hthreshold => ?_⟩⟩
  · rw [Bool.eq_iff_iff, passes_iff_decides, passes_iff_decides, tally_perm hperm]
  · rintro before after voter word rfl hyes
    rw [passes_iff_decides] at hpasses ⊢
    rw [tally_insert hyes]
    exact hpasses.yes
  · rintro before after voter word word' rfl hother hyes
    obtain ⟨c, hc⟩ : ∃ c, VoteChoice.fromStr word = some c := hother.elim (⟨_, ·⟩) (⟨_, ·⟩)
    rw [passes_iff_decides, tally_insert hc] at hpasses
    rw [passes_iff_decides, tally_insert hyes]
    exact hpasses.replaced
  · exact exists_yes ((passes_iff_decides.mp hpasses).yes_pos hthreshold)

end passes

end Covm.Governance
