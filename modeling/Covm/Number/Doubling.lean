import Covm.Number.Binary64
import Covm.Number.Exact
import Covm.Number.Rounding

/-!
# Exact values and rounding

What of an exact value survives: a number that is added to itself is doubled without rounding, as
long as it does not become infinite; the comparison is that of the values; and the number nearest to
`n` is at most twice as large.
-/

namespace Covm.Ieee

variable {fmt : Format}

theorem nearest_zero : nearest fmt 0 1 = 0 := nearest_of_dvd fmt (Nat.dvd_zero _)

theorem nearest_le_two_mul (k : Nat) : nearest fmt k 1 ≤ 2 * k := by
  rcases Nat.eq_zero_or_pos k with rfl | hk
  · rw [nearest_zero]
  · have hulp : ulp fmt k ≤ k := by
      have hprecision := fmt.precision_pos
      have hlog : ulp fmt k ≤ 2 ^ Nat.log2 k := Nat.pow_le_pow_right (by decide) (by omega)
      exact hlog.trans (Nat.log2_self_le hk.ne')
    calc nearest fmt k 1 = roundHalfEven k (1 * ulp fmt k) * ulp fmt k := by
          rw [nearest, Nat.div_one]
      _ ≤ (k / (1 * ulp fmt k) + 1) * ulp fmt k := Nat.mul_le_mul_right _ (roundHalfEven_le _ _)
      _ = k / ulp fmt k * ulp fmt k + ulp fmt k := by rw [Nat.one_mul]; ring
      _ ≤ k + k := Nat.add_le_add (Nat.div_mul_le_self _ _) hulp
      _ = 2 * k := (Nat.two_mul k).symm

/-- Doubling a number moves it up by one binade. -/
theorem ulp_dvd_two_mul {k : Nat} (h : ulp fmt k ∣ k) : ulp fmt (2 * k) ∣ 2 * k := by
  rcases Nat.eq_zero_or_pos k with rfl | hk
  · exact Nat.dvd_zero _
  · have hlog : Nat.log2 (2 * k) = Nat.log2 k + 1 := Nat.log2_two_mul hk.ne'
    have hulp : ulp fmt (2 * k) ∣ 2 * ulp fmt k := by
      rw [ulp, ulp, ← Nat.pow_succ', hlog]
      exact Nat.pow_dvd_pow 2 (by omega)
    exact hulp.trans (Nat.mul_dvd_mul_left 2 h)

/-- An exact result of the format is kept, unless it is too large. -/
theorem toRat?_ofInt {z : Bool} {x : Int} (h : ulp fmt x.natAbs ∣ x.natAbs) {q : ℚ}
    (hq : (ofInt z x : Ieee fmt).toRat? = some q) : q = x / scale fmt := by
  have hnearest := nearest_of_dvd fmt h
  unfold ofInt at hq
  split_ifs at hq with hx
  · have hzero : (ofRatio z 0 1 : Ieee fmt) = .fin z ⟨0, _⟩ :=
      ofRatio_of_nearest z ⟨Nat.two_pow_pos _, Nat.dvd_zero _⟩ nearest_zero
    rw [hzero] at hq
    cases hq
    simp [hx, toInt]
  · unfold ofRatio at hq
    split_ifs at hq with hlimit
    · cases hq
      simp only [toInt, hnearest]
      congr 1
      split_ifs with hneg
      · rw [decide_eq_true_eq] at hneg
        push_cast
        rw [abs_of_neg (by exact_mod_cast hneg), neg_neg]
      · rw [decide_eq_true_eq] at hneg
        push_cast
        rw [abs_of_nonneg (by exact_mod_cast not_lt.mp hneg)]
    · cases hq

theorem toRat?_add_self {x : Ieee fmt} {q : ℚ} (h : (add x x).toRat? = some q) :
    ∃ p, x.toRat? = some p ∧ q = 2 * p := by
  cases x with
  | nan => cases h
  | inf s => cases s <;> cases h
  | fin s k =>
    refine ⟨_, rfl, ?_⟩
    have habs : (toInt s k + toInt s k).natAbs = 2 * k.1 := by
      cases s <;> simp only [toInt, if_true, Bool.false_eq_true, if_false] <;> omega
    have hq : q = (toInt s k + toInt s k : Int) / scale fmt := by
      refine toRat?_ofInt ?_ h
      rw [habs]
      exact ulp_dvd_two_mul k.2.2
    rw [hq]
    push_cast
    ring

theorem le_of_not_lt {x y : Ieee fmt} {p q : ℚ} (hx : x.toRat? = some p) (hy : y.toRat? = some q)
    (h : Number.lt x y = false) : q ≤ p := by
  cases x with
  | nan => cases hx
  | inf s => cases hx
  | fin s k =>
    cases y with
    | nan => cases hy
    | inf t => cases hy
    | fin t l =>
      cases hx
      cases hy
      have hle : toInt t l ≤ toInt s k := not_lt.mp (of_decide_eq_false h)
      exact div_le_div_of_nonneg_right (by exact_mod_cast hle) scale_pos.le

/-- A whole number below another number is finite, and rounding has at most doubled it. -/
theorem toRat?_ofNat {n : Nat} {x : Ieee fmt} (h : Number.lt (Number.ofNat n) x = true) :
    ∃ q, (Number.ofNat n : Ieee fmt).toRat? = some q ∧ q ≤ 2 * n := by
  have hofNat : (Number.ofNat n : Ieee fmt) = ofRatio false (n * scale fmt) 1 := rfl
  rw [hofNat] at h ⊢
  unfold ofRatio at h ⊢
  split_ifs at h ⊢ with hlimit
  · refine ⟨_, rfl, ?_⟩
    rw [div_le_iff₀ scale_pos]
    have hle : nearest fmt (n * scale fmt) 1 ≤ 2 * (n * scale fmt) := nearest_le_two_mul _
    simp only [toInt, Bool.false_eq_true, if_false]
    have hcast : (nearest fmt (n * scale fmt) 1 : ℚ) ≤ (2 * (n * scale fmt) : Nat) := by
      exact_mod_cast hle
    push_cast at hcast ⊢
    linarith
  · cases x with
    | nan => cases h
    | inf s => cases s <;> cases h
    | fin s k => cases h

theorem toRat?_ofNat_of_lt {n : Nat} (h : n < 2 ^ fmt.precision) :
    (Number.ofNat n : Ieee fmt).toRat? = some (n : ℚ) := by
  have hofNat : (Number.ofNat n : Ieee fmt) = .fin false ⟨n * scale fmt, _⟩ := ofNat_of_lt h
  rw [hofNat, toRat?, toInt, if_neg Bool.false_ne_true]
  push_cast
  rw [mul_div_assoc, div_self scale_pos.ne', mul_one]

end Covm.Ieee
