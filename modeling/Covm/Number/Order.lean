import Covm.Number.Binary64
import Covm.Number.Rounding

/-!
# The order of the numbers

Of two numbers that are not NaN exactly one comparison holds. A difference and the difference the
other way round have the same absolute value; that of equal finite numbers is zero. Rounding never
goes beyond a number of the format (`nearest_le`).
-/

namespace Covm.Ieee

variable {fmt : Format} {x y : Ieee fmt}

theorem lt_asymm (h : lt x y = true) : lt y x = false := by
  cases x with
  | nan => cases h
  | inf s =>
    cases y with
    | nan => cases h
    | inf t => cases s <;> cases t <;> first | rfl | cases h
    | fin t l => cases s <;> first | rfl | cases h
  | fin s k =>
    cases y with
    | nan => cases h
    | inf t => cases t <;> first | rfl | cases h
    | fin t l =>
      have hlt : toInt s k < toInt t l := of_decide_eq_true h
      exact decide_eq_false hlt.asymm

theorem eq_swap : eq x y = eq y x := by
  cases x <;> cases y <;> simp [eq, eq_comm]

theorem lt_of_eq (h : eq x y = true) : lt x y = false := by
  cases x with
  | nan => cases h
  | inf s =>
    cases y with
    | nan => cases h
    | inf t => cases s <;> cases t <;> first | rfl | cases h
    | fin t l => cases h
  | fin s k =>
    cases y with
    | nan => cases h
    | inf t => cases h
    | fin t l =>
      have heq : toInt s k = toInt t l := of_decide_eq_true h
      exact decide_eq_false heq.not_lt

theorem lt_or_eq (hx : x ≠ nan) (hy : y ≠ nan) :
    lt x y = true ∨ eq x y = true ∨ lt y x = true := by
  cases x with
  | nan => exact absurd rfl hx
  | inf s =>
    cases y with
    | nan => exact absurd rfl hy
    | inf t => cases s <;> cases t <;> simp [lt, eq]
    | fin t l => cases s <;> simp [lt]
  | fin s k =>
    cases y with
    | nan => exact absurd rfl hy
    | inf t => cases t <;> simp [lt]
    | fin t l => simpa [lt, eq] using lt_trichotomy (toInt s k) (toInt t l)

theorem toInt_not (s : Bool) (k : Magnitude fmt) : toInt (!s) k = -toInt s k := by
  cases s <;> simp [toInt]

theorem abs_ofInt (zeroNeg : Bool) (v : Int) :
    abs (ofInt zeroNeg v : Ieee fmt) = ofRatio false v.natAbs 1 := by
  have hratio : ∀ s n d, abs (ofRatio s n d : Ieee fmt) = ofRatio false n d := by
    intro s n d
    unfold ofRatio
    split_ifs <;> rfl
  unfold ofInt
  split_ifs with hv
  · rw [hratio, hv]
    rfl
  · exact hratio _ _ _

theorem abs_sub_comm (x y : Ieee fmt) : abs (sub x y) = abs (sub y x) := by
  cases x with
  | nan => cases y <;> rfl
  | inf s =>
    cases y with
    | nan => rfl
    | inf t => cases s <;> cases t <;> rfl
    | fin t l => rfl
  | fin s k =>
    cases y with
    | nan => rfl
    | inf t => rfl
    | fin t l =>
      show abs (ofInt _ _) = abs (ofInt _ _)
      rw [abs_ofInt, abs_ofInt, toInt_not, toInt_not, ← Int.natAbs_neg]
      congr 2
      ring

/-- One of the numbers is below the other. -/
def Apart (x y : Ieee fmt) : Prop := lt x y = true ∨ lt y x = true

theorem Apart.symm (h : Apart x y) : Apart y x := Or.symm h

theorem Apart.not_eq (h : Apart x y) : eq x y = false := by
  rw [Bool.eq_false_iff]
  intro heq
  rcases h with h | h
  · rw [lt_of_eq heq] at h
    cases h
  · rw [lt_of_eq (eq_swap.trans heq)] at h
    cases h

theorem not_apart_self (x : Ieee fmt) : ¬ Apart x x := by
  intro h
  rcases h with h | h <;> exact absurd (lt_asymm h) (by rw [h]; decide)

theorem sub_self_fin (s : Bool) (k : Magnitude fmt) :
    ∃ t, sub (fin s k) (fin s k) = (ofRatio t 0 1 : Ieee fmt) := by
  show ∃ t, ofInt _ _ = _
  rw [toInt_not, add_neg_cancel]
  exact ⟨_, if_pos rfl⟩

theorem ofRatio_zero (s : Bool) {den : Nat} (hden : 0 < den) :
    ∃ k : Magnitude fmt, (ofRatio s 0 den : Ieee fmt) = fin s k ∧ k.1 = 0 := by
  have hzero : nearest fmt 0 den = 0 := nearest_of_small hden
  have hlt : nearest fmt 0 den < limit fmt := by
    rw [hzero]
    exact Nat.two_pow_pos _
  exact ⟨_, dif_pos hlt, hzero⟩

theorem isFinite_fin (s : Bool) (k : Magnitude fmt) :
    Number.isFinite (fin s k : Ieee fmt) = true := by
  obtain ⟨t, hsub⟩ := sub_self_fin s k
  obtain ⟨l, hl, hl0⟩ := @ofRatio_zero fmt t 1 Nat.one_pos
  obtain ⟨m, hm, hm0⟩ := @ofRatio_zero fmt false 1 Nat.one_pos
  have hofNat : (Number.ofNat 0 : Ieee fmt) = fin false m := by
    rw [← hm]
    show ofRatio false (0 * scale fmt) 1 = _
    rw [Nat.zero_mul]
  show eq (sub (fin s k) (fin s k)) (Number.ofNat 0) = true
  rw [hsub, hl, hofNat]
  exact decide_eq_true (by simp [toInt, hl0, hm0])

theorem isFinite_inf (s : Bool) : Number.isFinite (inf s : Ieee fmt) = false := by
  cases s <;> rfl

/-- Numbers that are not apart have a small difference only if they are equal and finite. -/
theorem close_iff_of_not_apart (h : ¬ Apart x y)
    (hpos : lt (ofRatio false 0 1) (Number.epsilon : Ieee fmt) = true) :
    lt (abs (sub x y)) Number.epsilon = true ↔ eq x y = true ∧ Number.isFinite x = true := by
  by_cases hnan : x = nan ∨ y = nan
  · have hsub : sub x y = nan := by
      rcases hnan with rfl | rfl
      · cases y <;> rfl
      · cases x <;> rfl
    have heq : eq x y = false := by
      rcases hnan with rfl | rfl
      · cases y <;> rfl
      · cases x <;> rfl
    rw [hsub, heq]
    exact iff_of_false Bool.false_ne_true fun h => absurd h.1 Bool.false_ne_true
  · rw [not_or] at hnan
    have heq : eq x y = true := by
      rcases lt_or_eq hnan.1 hnan.2 with hlt | heq | hlt
      · exact absurd (.inl hlt) h
      · exact heq
      · exact absurd (.inr hlt) h
    rw [and_iff_right heq]
    cases x with
    | nan => cases heq
    | inf s =>
      cases y with
      | nan => cases heq
      | inf t =>
        obtain rfl : s = t := of_decide_eq_true heq
        rw [isFinite_inf]
        have hsub : sub (inf s) (inf s) = (nan : Ieee fmt) := by cases s <;> rfl
        rw [hsub]
        exact iff_of_false Bool.false_ne_true fun h => absurd h Bool.false_ne_true
      | fin t l => cases heq
    | fin s k =>
      cases y with
      | nan => cases heq
      | inf t => cases heq
      | fin t l =>
        have hval : toInt s k = toInt t l := of_decide_eq_true heq
        rw [isFinite_fin]
        refine iff_of_true ?_ rfl
        show lt (abs (ofInt _ _)) _ = true
        rw [toInt_not, hval, add_neg_cancel, abs_ofInt]
        exact hpos

/-! ### Numbers and integers -/

theorem ge_ofNat_mono {k m : Nat} (h : k ≤ m) (hm : m < 2 ^ fmt.precision)
    (hge : Number.ge x (Number.ofNat m) = true) : Number.ge x (Number.ofNat k) = true := by
  have hk : (Number.ofNat k : Ieee fmt) = fin false ⟨k * scale fmt, _⟩ := ofNat_of_lt (h.trans_lt hm)
  have hm' : (Number.ofNat m : Ieee fmt) = fin false ⟨m * scale fmt, _⟩ := ofNat_of_lt hm
  rw [hm'] at hge
  rw [hk]
  change (lt _ x || eq _ x) = true at hge
  change (lt _ x || eq _ x) = true
  cases x with
  | nan => cases hge
  | inf s => exact hge
  | fin s l =>
    have hscale : k * scale fmt ≤ m * scale fmt := Nat.mul_le_mul_right _ h
    simp only [lt, eq, toInt, Bool.false_eq_true, if_false, Bool.or_eq_true, decide_eq_true_eq] at hge ⊢
    omega

theorem eq_ofNat_zero (h : eq x (Number.ofNat 0) = true) : ∃ s k, x = fin s k ∧ k.1 = 0 := by
  have hzero : (Number.ofNat 0 : Ieee fmt) = fin false ⟨0 * scale fmt, _⟩ :=
    ofNat_of_lt (Nat.two_pow_pos _)
  rw [hzero] at h
  cases x with
  | nan => cases h
  | inf s => cases h
  | fin s k =>
    have hval : toInt s k = ((0 * scale fmt : Nat) : Int) := of_decide_eq_true h
    refine ⟨s, k, rfl, ?_⟩
    cases s <;> simpa [toInt] using hval

/-- Nothing of something is nothing. -/
theorem div_of_eq_zero (hx : eq x (Number.ofNat 0) = true) (hy : lt (Number.ofNat 0) y = true) :
    ∃ s k, div x y = fin s k ∧ k.1 = 0 := by
  obtain ⟨s, k, rfl, hk⟩ := eq_ofNat_zero hx
  have hzero : (Number.ofNat 0 : Ieee fmt) = fin false ⟨0 * scale fmt, _⟩ :=
    ofNat_of_lt (Nat.two_pow_pos _)
  rw [hzero] at hy
  cases y with
  | nan => cases hy
  | inf t =>
    obtain ⟨m, hm⟩ := @ofRatio_zero fmt (s ^^ t) 1 Nat.one_pos
    exact ⟨s ^^ t, m, hm⟩
  | fin t l =>
    have hval : ((0 * scale fmt : Nat) : Int) < toInt t l := of_decide_eq_true hy
    have hl : 0 < l.1 := by
      rcases Nat.eq_zero_or_pos l.1 with hl | hl
      · simp [toInt, hl] at hval
      · exact hl
    obtain ⟨m, hm⟩ := @ofRatio_zero fmt (s ^^ t) l.1 hl
    refine ⟨s ^^ t, m, ?_, hm.2⟩
    show ite (l.1 = 0) _ (ofRatio (s ^^ t) (k.1 * scale fmt) l.1) = _
    rw [if_neg hl.ne', hk, Nat.zero_mul]
    exact hm.1

/-- No percentage of nothing reaches a positive number. -/
theorem ge_zero_percent (hx : Number.eq x (Number.ofNat 0) = true)
    (hy : Number.gt y (Number.ofNat 0) = true) {n percent : Nat} (hpos : 0 < n)
    (hn : n < 2 ^ fmt.precision) (hpercent : percent < 2 ^ fmt.precision) :
    Number.ge (Number.mul (Number.div x y) (Number.ofNat percent)) (Number.ofNat n) = false := by
  obtain ⟨s, k, hdiv, hk⟩ := div_of_eq_zero hx hy
  obtain ⟨m, hm, hzero⟩ := @ofRatio_zero fmt (s ^^ false) (scale fmt) (Nat.two_pow_pos _)
  have hmul : mul (div x y) (ofNat percent) = fin (s ^^ false) m := by
    rw [hdiv, ofNat_of_lt hpercent, ← hm]
    show ofRatio _ (k.1 * _) _ = _
    rw [hk, Nat.zero_mul]
  show Number.ge (mul (div x y) (ofNat percent)) (ofNat n) = false
  rw [hmul, ofNat_of_lt hn]
  have hscale : 0 < n * scale fmt := Nat.mul_pos hpos (Nat.two_pow_pos _)
  have hval : toInt (s ^^ false) m = 0 := by
    unfold toInt
    rw [hzero]
    exact ite_self _
  show (decide (((n * scale fmt : Nat) : Int) < toInt (s ^^ false) m) ||
    decide (((n * scale fmt : Nat) : Int) = toInt (s ^^ false) m)) = false
  rw [hval, Bool.or_eq_false_iff, decide_eq_false_iff_not, decide_eq_false_iff_not]
  constructor <;> omega

/-! ### Numbers up to one -/

theorem roundHalfEven_le_of_le {num den c : Nat} (hden : 0 < den) (h : num ≤ c * den) :
    roundHalfEven num den ≤ c := by
  have hclose := (roundHalfEven_close num hden).2
  by_contra hlt
  have hle : (c + 1) * den ≤ roundHalfEven num den * den :=
    Nat.mul_le_mul_right _ (Nat.lt_of_not_le hlt)
  nlinarith

/-- Rounding does not go beyond a number of the format. -/
theorem nearest_le {num den k : Nat} (hden : 0 < den) (h : num ≤ k * den) (hk : ulp fmt k ∣ k) :
    nearest fmt num den ≤ k := by
  have hq : num / den ≤ k := Nat.div_le_of_le_mul (by rw [Nat.mul_comm]; exact h)
  have hlog : Nat.log2 (num / den) ≤ Nat.log2 k := by
    rw [Nat.log2_eq_log_two, Nat.log2_eq_log_two]
    exact Nat.log_mono_right hq
  obtain ⟨c, hc⟩ := (ulp_dvd_ulp hlog).trans hk
  have hround : roundHalfEven num (den * ulp fmt (num / den)) ≤ c := by
    refine roundHalfEven_le_of_le (Nat.mul_pos hden (ulp_pos fmt _)) (h.trans_eq ?_)
    rw [hc]
    ring
  calc nearest fmt num den ≤ c * ulp fmt (num / den) := Nat.mul_le_mul_right _ hround
    _ = k := by rw [Nat.mul_comm, ← hc]

theorem ofRatio_le (s : Bool) {num den : Nat} (hden : 0 < den) {k : Magnitude fmt}
    (h : num ≤ k.1 * den) : ∃ l : Magnitude fmt, ofRatio s num den = fin s l ∧ l.1 ≤ k.1 := by
  have hle : nearest fmt num den ≤ k.1 := nearest_le hden h k.2.2
  exact ⟨_, dif_pos (hle.trans_lt k.2.1), hle⟩

/-- A number from zero up to one, without one. -/
structure InUnit (x : Ieee fmt) : Prop where
  nonneg : Number.ge x (Number.ofNat 0) = true
  below : Number.lt x (Number.ofNat 1) = true

theorem InUnit.exists_fin (h : InUnit x) :
    ∃ s k, x = fin s k ∧ 0 ≤ toInt s k ∧ toInt s k < scale fmt := by
  obtain ⟨hnonneg, hbelow⟩ := h
  have hzero : (Number.ofNat 0 : Ieee fmt) = fin false ⟨0 * scale fmt, _⟩ :=
    ofNat_of_lt (Nat.two_pow_pos _)
  have hone : (Number.ofNat 1 : Ieee fmt) = fin false ⟨1 * scale fmt, _⟩ := ofNat_one
  rw [hzero] at hnonneg
  rw [hone] at hbelow
  change (lt _ x || eq _ x) = true at hnonneg
  change lt x _ = true at hbelow
  cases x with
  | nan => cases hbelow
  | inf s =>
    cases s with
    | false => cases hbelow
    | true => cases hnonneg
  | fin s k =>
    simp only [lt, eq, toInt, Bool.false_eq_true, if_false, Bool.or_eq_true, decide_eq_true_eq]
      at hnonneg hbelow
    refine ⟨s, k, rfl, ?_⟩
    unfold toInt
    constructor <;> omega

/-- `0.5` -/
theorem exists_half (hlog : 1 ≤ fmt.scaleLog) (hprec : 2 ≤ fmt.precision) :
    ∃ k : Magnitude fmt, div (ofNat 1) (ofNat 2) = fin false k ∧ 2 * k.1 = scale fmt := by
  have hscale : 2 * 2 ^ (fmt.scaleLog - 1) = scale fmt := by
    rw [← Nat.pow_succ', Nat.succ_eq_add_one, Nat.sub_add_cancel hlog]
    rfl
  have hpos : 0 < scale fmt := Nat.two_pow_pos _
  have hdvd : ulp fmt (2 ^ (fmt.scaleLog - 1)) ∣ 2 ^ (fmt.scaleLog - 1) := by
    have := @ulp_dvd_two_pow fmt (2 ^ (fmt.scaleLog - 1))
    rwa [Nat.log2_two_pow] at this
  have hlimit : 2 ^ (fmt.scaleLog - 1) < limit fmt :=
    Nat.pow_lt_pow_right (by decide) (by have := fmt.precision_le; omega)
  have htwo : (2 : Nat) < 2 ^ fmt.precision :=
    (show 2 < 2 ^ 2 by decide).trans_le (Nat.pow_le_pow_right (by decide) hprec)
  refine ⟨⟨_, hlimit, hdvd⟩, ?_, hscale⟩
  rw [ofNat_one, ofNat_of_lt htwo]
  show ite (2 * scale fmt = 0) _ (ofRatio _ (1 * scale fmt * scale fmt) (2 * scale fmt)) = _
  rw [if_neg (by omega)]
  refine ofRatio_of_nearest _ ⟨hlimit, hdvd⟩ (Eq.trans ?_ (nearest_of_dvd fmt hdvd))
  refine nearest_congr (by omega) Nat.one_pos ?_
  rw [← hscale]
  ring

/-- The distance to one half is at most one half. -/
theorem InUnit.sub_half (h : InUnit x) {half : Magnitude fmt} (hhalf : 2 * half.1 = scale fmt) :
    ∃ t l, sub x (fin false half) = fin t l ∧ l.1 ≤ half.1 := by
  obtain ⟨s, k, rfl, hnonneg, hbelow⟩ := h.exists_fin
  have hneg : toInt true half = -(half.1 : Int) := rfl
  show ∃ t l, ofInt (s && true) (toInt s k + toInt true half) = fin t l ∧ _
  unfold ofInt
  split_ifs
  · exact ⟨_, ofRatio_le _ Nat.one_pos (Nat.zero_le _)⟩
  · exact ⟨_, ofRatio_le _ Nat.one_pos (by omega)⟩

/-- A whole number of halves, as an unsigned integer. -/
theorem toU64_mul_le {e : Nat} (he : 2 * e < 2 ^ fmt.precision) (t : Bool) {l half : Magnitude fmt}
    (hhalf : 2 * half.1 = scale fmt) (hl : l.1 ≤ half.1) :
    toU64 (mul (ofNat (2 * e)) (fin t l)) ≤ e := by
  have hpos : 0 < scale fmt := Nat.two_pow_pos _
  have hle : 2 * e * scale fmt * l.1 ≤ e * scale fmt * scale fmt := by
    calc 2 * e * scale fmt * l.1 ≤ 2 * e * scale fmt * half.1 := Nat.mul_le_mul_left _ hl
      _ = e * scale fmt * (2 * half.1) := by ring
      _ = e * scale fmt * scale fmt := by rw [hhalf]
  rw [ofNat_of_lt he]
  show toU64 (ofRatio (false ^^ t) (2 * e * scale fmt * l.1) (scale fmt)) ≤ e
  obtain ⟨m, hm, hmle⟩ := @ofRatio_le fmt (false ^^ t) _ _ hpos
    ⟨e * scale fmt, representable_of_lt (by omega)⟩ hle
  rw [hm]
  cases t with
  | false =>
    have hdiv : m.1 / scale fmt ≤ e := Nat.div_le_of_le_mul (hmle.trans_eq (Nat.mul_comm _ _))
    exact (min_le_left _ _).trans hdiv
  | true => exact Nat.zero_le e

/-! ### Whole numbers -/

/-- The integer nearest to a finite number, away from zero in case of a tie. -/
def nearestInteger : Ieee fmt → Option Int
  | fin s k =>
    let n := (2 * k.1 + scale fmt) / (2 * scale fmt)
    some (if s then -n else n)
  | _ => none

end Covm.Ieee
