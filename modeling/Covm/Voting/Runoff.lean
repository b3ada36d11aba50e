import Mathlib.Algebra.BigOperators.Group.Finset.Piecewise
import Mathlib.Algebra.Order.BigOperators.Group.Finset
import Mathlib.Data.Finset.Card

/-!
# Elections by elimination

A ballot ranks the candidates. It counts for the first of its candidates that is still in the race.
A candidate with the fewest votes drops out, round by round; here only among those that have votes
at all, so that a candidate that is nobody's first choice stays (`Eliminable`).

With this rule the race ends with a candidate that has a majority of the first choices iff every
other candidate is preferred to it on some ballot (`Run.wins_iff`).
-/

namespace Voting

variable {α : Type} [DecidableEq α]

/-- The candidate a ballot counts for. -/
def top (R : Finset α) (ballot : List α) : Option α := ballot.find? fun x => decide (x ∈ R)

def votes (ballots : List (List α)) (R : Finset α) (x : α) : ℕ :=
  ballots.countP fun ballot => top R ballot = some x

/-- Every candidate in the race is on every ballot. -/
def Complete (ballots : List (List α)) (R : Finset α) : Prop :=
  ∀ ballot ∈ ballots, ∀ x ∈ R, x ∈ ballot

/-- The ballot has `x` before `y`. -/
def Prefers (ballot : List α) (x y : α) : Prop := top {x, y} ballot = some x

instance (ballot : List α) (x y : α) : Decidable (Prefers ballot x y) :=
  inferInstanceAs (Decidable (_ = _))

section
variable {R R' : Finset α} {ballot : List α} {x y : α}

theorem mem_of_top (h : top R ballot = some x) : x ∈ R := by
  simpa using List.find?_some h

theorem top_ne_none (hx : x ∈ ballot) (hxR : x ∈ R) : ∃ y, top R ballot = some y := by
  refine Option.ne_none_iff_exists'.mp fun hnone => ?_
  have hnot := List.find?_eq_none.mp hnone x hx
  exact hnot (by simpa using hxR)

/-- In a smaller race the ballot counts for the same candidate, if that one is still there. -/
theorem top_of_subset (hsub : R' ⊆ R) (h : top R ballot = some x) (hx : x ∈ R') :
    top R' ballot = some x := by
  obtain ⟨-, before, after, rfl, hbefore⟩ := List.find?_eq_some_iff_append.mp h
  refine List.find?_eq_some_iff_append.mpr ⟨by simpa using hx, before, after, rfl, ?_⟩
  intro y hy
  have hout : y ∉ R := by simpa using hbefore y hy
  simpa using fun hmem => hout (hsub hmem)

theorem Prefers.top_ne (h : Prefers ballot x y) (hxy : x ≠ y) (hx : x ∈ R) :
    top R ballot ≠ some y := by
  intro htop
  have hpair : top {x, y} ballot = some y := by
    obtain ⟨-, before, after, rfl, hbefore⟩ := List.find?_eq_some_iff_append.mp htop
    refine List.find?_eq_some_iff_append.mpr ⟨by simp, before, after, rfl, ?_⟩
    intro z hz
    have hzR : z ∉ R := by simpa using hbefore z hz
    have hzx : z ≠ x := fun heq => hzR (heq ▸ hx)
    have hzy : z ≠ y := fun heq => hzR (heq ▸ mem_of_top htop)
    simp [hzx, hzy]
  exact hxy (Option.some.inj (h.symm.trans hpair))

end

section
variable {ballots : List (List α)} {R R' : Finset α} {w x y : α}

theorem votes_pos : 0 < votes ballots R x ↔ ∃ ballot ∈ ballots, top R ballot = some x := by
  simp [votes, List.countP_pos_iff]

theorem votes_le_length : votes ballots R x ≤ ballots.length := List.countP_le_length

theorem votes_of_notMem (hx : x ∉ R) : votes ballots R x = 0 :=
  List.countP_eq_zero.mpr fun ballot _ => by simpa using fun htop => hx (mem_of_top htop)

theorem votes_mono (hsub : R' ⊆ R) (hx : x ∈ R') : votes ballots R x ≤ votes ballots R' x :=
  List.countP_mono_left fun ballot _ htop => by
    simpa using top_of_subset hsub (by simpa using htop) hx

/-- No ballot counts for two candidates. -/
theorem votes_add_le (hxy : x ≠ y) :
    votes ballots R x + votes ballots R y ≤ ballots.length := by
  induction ballots with
  | nil => simp [votes]
  | cons ballot ballots ih =>
    have hone : (if top R ballot = some x then 1 else 0) + (if top R ballot = some y then 1 else 0)
        ≤ 1 := by
      by_cases hx : top R ballot = some x
      · rw [if_pos hx, if_neg (by rw [hx]; simpa using hxy)]
      · rw [if_neg hx]
        split_ifs <;> simp
    simp only [votes, List.countP_cons, decide_eq_true_eq, List.length_cons] at ih ⊢
    omega

/-- Every ballot counts for one candidate. -/
theorem sum_votes (hcomplete : Complete ballots R) (hR : R.Nonempty) :
    ∑ x ∈ R, votes ballots R x = ballots.length := by
  obtain ⟨x₀, hx₀⟩ := hR
  induction ballots with
  | nil => simp [votes]
  | cons ballot ballots ih =>
    obtain ⟨x, hx⟩ := top_ne_none (hcomplete ballot List.mem_cons_self x₀ hx₀) hx₀
    have hone : ∑ y ∈ R, (if top R ballot = some y then 1 else 0) = 1 := by
      rw [hx]
      simp only [Option.some.injEq]
      rw [Finset.sum_ite_eq, if_pos (mem_of_top hx)]
    have hrest := ih fun ballot' h => hcomplete ballot' (List.mem_cons_of_mem _ h)
    simp only [votes, List.countP_cons, decide_eq_true_eq, Finset.sum_add_distrib, hone,
      List.length_cons] at hrest ⊢
    rw [hrest]

/-! ### Rounds -/

/-- Whom a round may eliminate: one of the fewest votes among those that have votes. -/
structure Eliminable (ballots : List (List α)) (R : Finset α) (x : α) : Prop where
  pos : 0 < votes ballots R x
  least : ∀ y, 0 < votes ballots R y → votes ballots R x ≤ votes ballots R y

theorem Eliminable.mem (h : Eliminable ballots R x) : x ∈ R := by
  by_contra hx
  exact absurd h.pos (by rw [votes_of_notMem hx]; exact Nat.lt_irrefl 0)

/-- A race from `R` to `R'`. -/
inductive Run (ballots : List (List α)) : Finset α → Finset α → Prop where
  | done (R : Finset α) : Run ballots R R
  | round {R R' : Finset α} {x : α} (hcard : 1 < R.card) (hx : Eliminable ballots R x)
      (h : Run ballots (R.erase x) R') : Run ballots R R'

theorem Run.subset (h : Run ballots R R') : R' ⊆ R := by
  induction h with
  | done R => exact Finset.Subset.refl R
  | round _ _ _ ih => exact ih.trans (Finset.erase_subset _ _)

/-- Whoever drops out while `w` is in the race was preferred to `w`. -/
theorem Run.prefers (h : Run ballots R R') (hw : w ∈ R') (hy : y ∈ R) (hout : y ∉ R') :
    ∃ ballot ∈ ballots, Prefers ballot y w := by
  induction h with
  | done R => exact absurd hy hout
  | @round R R' x _ hx hrest ih =>
    have hwR : w ∈ R := Finset.erase_subset _ _ (hrest.subset hw)
    by_cases hyx : y = x
    · obtain ⟨ballot, hballot, htop⟩ := votes_pos.mp hx.pos
      have hpair : ({y, w} : Finset α) ⊆ R := by
        rw [Finset.insert_subset_iff, Finset.singleton_subset_iff]
        exact ⟨hy, hwR⟩
      exact ⟨ballot, hballot, top_of_subset hpair (hyx ▸ htop) (Finset.mem_insert_self y _)⟩
    · exact ih hw (Finset.mem_erase.mpr ⟨hyx, hy⟩) hout

/-- A majority stays in the race as long as another candidate has votes. -/
theorem Eliminable.ne_of_majority (hx : Eliminable ballots R x)
    (hmajority : ballots.length < 2 * votes ballots R w) (hyw : y ≠ w)
    (hy : 0 < votes ballots R y) : x ≠ w := by
  rintro rfl
  have hleast := hx.least y hy
  have hsum : votes ballots R y + votes ballots R x ≤ ballots.length := votes_add_le hyw
  omega

theorem Run.mem_of_prefers (h : Run ballots R R') (hcomplete : Complete ballots R) (hw : w ∈ R)
    (hmajority : ballots.length < 2 * votes ballots R w)
    (hprefers : ∀ y ∈ R, y ≠ w → ∃ ballot ∈ ballots, Prefers ballot y w) : w ∈ R' := by
  induction h with
  | done R => exact hw
  | @round R R' x hcard hx hrest ih =>
    -- a ballot that prefers another candidate counts for another candidate
    obtain ⟨y, hy, hyw⟩ := Finset.exists_mem_ne hcard w
    obtain ⟨ballot, hballot, hpref⟩ := hprefers y hy hyw
    obtain ⟨z, hz⟩ := top_ne_none (hcomplete ballot hballot y hy) hy
    have hzw : z ≠ w := by
      rintro rfl
      exact hpref.top_ne hyw hy hz
    have hxw := hx.ne_of_majority hmajority hzw (votes_pos.mpr ⟨ballot, hballot, hz⟩)
    have hw' : w ∈ R.erase x := Finset.mem_erase.mpr ⟨hxw.symm, hw⟩
    have hmono : votes ballots R w ≤ votes ballots (R.erase x) w :=
      votes_mono (Finset.erase_subset x R) hw'
    refine ih (fun b hb u hu => hcomplete b hb u (Finset.mem_of_mem_erase hu)) hw' (by omega) ?_
    exact fun u hu huw => hprefers u (Finset.mem_of_mem_erase hu) huw

/-- A race that ends with one candidate is won by the majority iff every other candidate is
preferred to it by somebody. -/
theorem Run.wins_iff {z : α} (h : Run ballots R {z}) (hcomplete : Complete ballots R) (hw : w ∈ R)
    (hmajority : ballots.length < 2 * votes ballots R w) :
    z = w ↔ ∀ y ∈ R, y ≠ w → ∃ ballot ∈ ballots, Prefers ballot y w := by
  constructor
  · rintro rfl y hy hyz
    exact h.prefers (Finset.mem_singleton_self z) hy (by simpa using hyz)
  · intro hprefers
    exact (Finset.mem_singleton.mp (h.mem_of_prefers hcomplete hw hmajority hprefers)).symm

/-- As long as somebody votes, somebody can be eliminated. -/
theorem exists_eliminable (hcomplete : Complete ballots R) (hR : R.Nonempty)
    (hballots : ballots ≠ []) : ∃ x ∈ R, 0 < votes ballots R x := by
  by_contra! hnone
  have hsum := sum_votes hcomplete hR
  rw [Finset.sum_eq_zero fun x hx => Nat.le_zero.mp (hnone x hx)] at hsum
  exact hballots (List.length_eq_zero_iff.mp hsum.symm)

end

end Voting
