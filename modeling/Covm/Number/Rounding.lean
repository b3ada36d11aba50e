import Covm.Number.Ieee
import Mathlib.Tactic.Linarith

/-!
# Rounding to a format

What is close enough to a number of the format is rounded to it (`nearest_of_close`): nearer than a
quarter of the distance to the next one, since the numbers below a power of two are twice as dense
as those above it. Rounding depends on the ratio only (`nearest_congr`).
-/

namespace Covm.Ieee

variable {fmt : Format}

/-! ### To a natural number -/

/-- Nearer than one half. -/
theorem roundHalfEven_of_close {num den c : Nat} (h : 2 * num < (2 * c + 1) * den)
    (h' : 2 * c * den < 2 * num + den) : roundHalfEven num den = c := by
  have hden : 0 < den := by
    rcases Nat.eq_zero_or_pos den with rfl | hpos
    · simp at h
    · exact hpos
  have hmod := Nat.mod_lt num hden
  have hdiv := Nat.div_add_mod num den
  set q := num / den with hq
  set r := num % den with hr
  have hlow : q ≤ c := by
    by_contra hlt
    have : (c + 1) * den ≤ q * den := Nat.mul_le_mul_right _ (by omega)
    nlinarith
  have hhigh : c ≤ q + 1 := by
    by_contra hlt
    have : (q + 2) * den ≤ c * den := Nat.mul_le_mul_right _ (by omega)
    nlinarith
  simp only [roundHalfEven, ← hq, ← hr]
  rcases Nat.lt_or_eq_of_le hlow with hlt | rfl
  · obtain rfl : c = q + 1 := by omega
    have hmore : den < 2 * r := by nlinarith
    rw [if_neg (by omega), if_pos hmore]
  · have hless : 2 * r < den := by nlinarith
    rw [if_pos hless]

/-- The error is at most one half. -/
theorem roundHalfEven_close (num : Nat) {den : Nat} (hden : 0 < den) :
    2 * num ≤ (2 * roundHalfEven num den + 1) * den ∧
      2 * roundHalfEven num den * den ≤ 2 * num + den := by
  have hmod := Nat.mod_lt num hden
  have hdiv := Nat.div_add_mod num den
  simp only [roundHalfEven]
  set q := num / den
  set r := num % den
  have hq : q % 2 = 0 ∨ q % 2 = 1 := by omega
  split
  · constructor <;> nlinarith
  · split
    · constructor <;> nlinarith
    · have hhalf : 2 * r = den := by omega
      rcases hq with h | h <;> rw [h] <;> constructor <;> nlinarith

theorem roundHalfEven_mul (num den : Nat) {c : Nat} (hc : 0 < c) :
    roundHalfEven (num * c) (den * c) = roundHalfEven num den := by
  have hdiv : num * c / (den * c) = num / den := Nat.mul_div_mul_right num den hc
  have hmod : num * c % (den * c) = num % den * c := Nat.mul_mod_mul_right c num den
  have hlt : 2 * (num % den * c) < den * c ↔ 2 * (num % den) < den := by
    rw [← Nat.mul_assoc, Nat.mul_lt_mul_right hc]
  have hgt : den * c < 2 * (num % den * c) ↔ den < 2 * (num % den) := by
    rw [← Nat.mul_assoc, Nat.mul_lt_mul_right hc]
  simp only [roundHalfEven, hdiv, hmod, hlt, hgt]

/-! ### To a number of the format -/

theorem nearest_mul (num den : Nat) {c : Nat} (hc : 0 < c) :
    nearest fmt (num * c) (den * c) = nearest fmt num den := by
  have hdiv : num * c / (den * c) = num / den := Nat.mul_div_mul_right num den hc
  simp only [nearest, hdiv]
  rw [Nat.mul_right_comm, roundHalfEven_mul _ _ hc]

/-- Rounding depends on the ratio only. -/
theorem nearest_congr {num den num' den' : Nat} (hden : 0 < den) (hden' : 0 < den')
    (h : num * den' = num' * den) : nearest fmt num den = nearest fmt num' den' := by
  rw [← nearest_mul num den hden', ← nearest_mul num' den' hden, h, Nat.mul_comm den]

theorem ulp_le_self {k : Nat} (hk : 0 < k) (h : ulp fmt k ∣ k) : ulp fmt k ≤ k :=
  Nat.le_of_dvd hk h

theorem ulp_dvd_two_pow (k : Nat) : ulp fmt k ∣ 2 ^ (Nat.log2 k) := by
  have := fmt.precision_pos
  exact Nat.pow_dvd_pow 2 (by omega)

theorem ulp_dvd_ulp {k l : Nat} (h : Nat.log2 k ≤ Nat.log2 l) : ulp fmt k ∣ ulp fmt l :=
  Nat.pow_dvd_pow 2 (by omega)

theorem ulp_le_two_mul {k l : Nat} (h : Nat.log2 l ≤ Nat.log2 k + 1) :
    ulp fmt l ≤ 2 * ulp fmt k := by
  rw [ulp, ulp, ← Nat.pow_succ']
  exact Nat.pow_le_pow_right (by omega) (by omega)

/-- Below a power of two, a multiple of the distance is below it by that distance. -/
theorem add_ulp_le {k : Nat} (h : ulp fmt k ∣ k) : k + ulp fmt k ≤ 2 ^ (Nat.log2 k + 1) := by
  have hlt : k < 2 ^ (Nat.log2 k + 1) := Nat.lt_log2_self
  have hdvd : ulp fmt k ∣ 2 ^ (Nat.log2 k + 1) :=
    (ulp_dvd_two_pow k).trans (Nat.pow_dvd_pow 2 (by omega))
  have hle := Nat.le_of_dvd (Nat.sub_pos_of_lt hlt) (Nat.dvd_sub hdvd h)
  omega

section close
variable {k num den : Nat} (hdvd : ulp fmt k ∣ k)
include hdvd

theorem log2_div_le (h : 4 * num < (4 * k + ulp fmt k) * den) :
    Nat.log2 (num / den) ≤ Nat.log2 k := by
  rcases Nat.eq_zero_or_pos (num / den) with hzero | hpos
  · rw [hzero]
    exact Nat.zero_le _
  · have hlt : num < 2 ^ (Nat.log2 k + 1) * den := by
      have hle := Nat.mul_le_mul_right den (add_ulp_le hdvd)
      nlinarith
    exact Nat.lt_succ_iff.mp ((Nat.log2_lt (by omega)).mpr (Nat.div_lt_of_lt_mul
      (by rwa [Nat.mul_comm])))

variable (hk : 0 < k) (hden : 0 < den) (h' : 4 * k * den < 4 * num + ulp fmt k * den)
include hk hden h'

theorem log2_le_div : Nat.log2 k ≤ Nat.log2 (num / den) + 1 := by
  rcases Nat.eq_zero_or_pos (Nat.log2 k) with hzero | hpos
  · omega
  · have hpow : 2 ^ (Nat.log2 k - 1) * 2 ≤ k := by
      rw [← Nat.pow_succ, Nat.succ_eq_add_one, Nat.sub_add_cancel hpos]
      exact Nat.log2_self_le (by omega)
    have hu : ulp fmt k * den ≤ k * den := Nat.mul_le_mul_right den (ulp_le_self hk hdvd)
    have hle : 2 ^ (Nat.log2 k - 1) * den ≤ num := by nlinarith
    have hq : 2 ^ (Nat.log2 k - 1) ≤ num / den := (Nat.le_div_iff_mul_le hden).mpr hle
    have hne : num / den ≠ 0 := by
      have := Nat.two_pow_pos (Nat.log2 k - 1)
      omega
    have := (Nat.le_log2 hne).mpr hq
    omega

/-- What is nearer to a number of the format than a quarter of the distance to the next one is
rounded to it. -/
theorem nearest_of_close (h : 4 * num < (4 * k + ulp fmt k) * den) :
    nearest fmt num den = k := by
  -- the ratio may fall into the binade below, where the distance is half as large
  have hdvd' : ulp fmt (num / den) ∣ k := (ulp_dvd_ulp (log2_div_le hdvd h)).trans hdvd
  have hulp : ulp fmt k ≤ 2 * ulp fmt (num / den) := ulp_le_two_mul (log2_le_div hdvd hk hden h')
  obtain ⟨c, hc⟩ := hdvd'
  have hscaled := Nat.mul_le_mul_right den hulp
  have hround : roundHalfEven num (den * ulp fmt (num / den)) = c := by
    apply roundHalfEven_of_close
    · nlinarith
    · nlinarith
  rw [nearest, hround, hc, Nat.mul_comm]

end close

theorem nearest_of_small {num den : Nat} (h : 2 * num < den) : nearest fmt num den = 0 := by
  have hq : num / den = 0 := Nat.div_eq_of_lt (by omega)
  have hulp : ulp fmt 0 = 1 := by
    have := fmt.precision_pos
    rw [ulp, Nat.log2_zero, show 0 + 1 - fmt.precision = 0 by omega, pow_zero]
  rw [nearest, hq, hulp, roundHalfEven_of_close (c := 0) (by omega) (by omega)]

/-- What is far beyond the largest number stays there. -/
theorem limit_le_nearest {num den : Nat} (h : 2 * limit fmt ≤ num / den) :
    limit fmt ≤ nearest fmt num den := by
  have hfloor : num / den / ulp fmt (num / den) ≤
      roundHalfEven num (den * ulp fmt (num / den)) := by
    rw [Nat.div_div_eq_div_mul]
    simp only [roundHalfEven]
    split
    · omega
    · split <;> omega
  rw [nearest]
  set q := num / den
  have hpos : 0 < limit fmt := Nat.two_pow_pos _
  have hlog : 2 ^ Nat.log2 q ≤ q := Nat.log2_self_le (by omega)
  have hlog' : q < 2 ^ (Nat.log2 q + 1) := Nat.lt_log2_self
  calc limit fmt ≤ 2 ^ Nat.log2 q := by rw [Nat.pow_succ] at hlog'; omega
    _ = 2 ^ Nat.log2 q / ulp fmt q * ulp fmt q := (Nat.div_mul_cancel (ulp_dvd_two_pow q)).symm
    _ ≤ q / ulp fmt q * ulp fmt q := Nat.mul_le_mul_right _ (Nat.div_le_div_right hlog)
    _ ≤ _ := Nat.mul_le_mul_right _ hfloor

/-! ### Decimals -/

theorem ofRatio_congr (neg : Bool) {num den num' den' : Nat}
    (h : nearest fmt num den = nearest fmt num' den') :
    (ofRatio neg num den : Ieee fmt) = ofRatio neg num' den' := by
  simp only [ofRatio, h]

theorem ofRatio_of_nearest (neg : Bool) {num den k : Nat} (hk : Representable fmt k)
    (h : nearest fmt num den = k) : ofRatio neg num den = .fin neg ⟨k, hk⟩ := by
  subst h
  simp only [ofRatio, hk.1, dif_pos]

/-- What the magnitude `m * 10 ^ e` is rounded to. -/
def roundDecimal (fmt : Format) (m : Nat) (e : Int) : Nat :=
  nearest fmt (m * 10 ^ e.toNat * scale fmt) (10 ^ (-e).toNat)

theorem lt_ten_pow_length (m : Nat) : m < 10 ^ (Nat.toDigits 10 m).length :=
  (Nat.length_toDigits_le_iff (by decide) Nat.length_toDigits_pos).mp (Nat.le_refl _)

theorem ten_pow_length_le {m : Nat} (hm : 0 < m) : 10 ^ ((Nat.toDigits 10 m).length - 1) ≤ m := by
  have hpos : 0 < (Nat.toDigits 10 m).length := Nat.length_toDigits_pos
  rcases Nat.eq_zero_or_pos ((Nat.toDigits 10 m).length - 1) with hzero | hmore
  · rw [hzero, pow_zero]
    exact hm
  · rw [← Nat.not_lt, ← Nat.length_toDigits_le_iff (by decide) hmore]
    omega

theorem decimal_small {m : Nat} {e : Int}
    (h : ((Nat.toDigits 10 m).length : Int) + e < -fmt.scaleLog) :
    2 * (m * 10 ^ e.toNat * scale fmt) < 10 ^ (-e).toNat := by
  have hscale : scale fmt ≤ 10 ^ fmt.scaleLog := Nat.pow_le_pow_left (by decide) _
  have hone : 0 < scale fmt := Nat.two_pow_pos _
  have hm := lt_ten_pow_length m
  set len := (Nat.toDigits 10 m).length
  calc 2 * (m * 10 ^ e.toNat * scale fmt)
      = 2 * (m * scale fmt) := by rw [show e.toNat = 0 by omega, pow_zero, Nat.mul_one]
    _ < 2 * (10 ^ len * scale fmt) := by
        have := Nat.mul_lt_mul_of_pos_right hm hone
        omega
    _ ≤ 10 * (10 ^ len * 10 ^ fmt.scaleLog) :=
        Nat.mul_le_mul (by decide) (Nat.mul_le_mul_left _ hscale)
    _ = 10 ^ (len + fmt.scaleLog + 1) := by ring
    _ ≤ 10 ^ (-e).toNat := Nat.pow_le_pow_right (by decide) (by omega)

theorem decimal_large {m : Nat} (hm : 0 < m) {e : Int}
    (h : ((Nat.toDigits 10 m).length : Int) + e > fmt.limitLog + 1) :
    2 * limit fmt ≤ m * 10 ^ e.toNat * scale fmt / 10 ^ (-e).toNat := by
  have hone : 1 ≤ scale fmt := Nat.two_pow_pos _
  have hm' := ten_pow_length_le hm
  have hlength : 0 < (Nat.toDigits 10 m).length := Nat.length_toDigits_pos
  set len := (Nat.toDigits 10 m).length
  rw [Nat.le_div_iff_mul_le (by positivity)]
  calc 2 * limit fmt * 10 ^ (-e).toNat
      = 2 ^ (fmt.limitLog + 1) * 10 ^ (-e).toNat := by rw [limit, Nat.pow_succ']
    _ ≤ 10 ^ (fmt.limitLog + 1) * 10 ^ (-e).toNat :=
        Nat.mul_le_mul_right _ (Nat.pow_le_pow_left (by decide) _)
    _ = 10 ^ (fmt.limitLog + 1 + (-e).toNat) := (pow_add _ _ _).symm
    _ ≤ 10 ^ (len - 1 + e.toNat) := Nat.pow_le_pow_right (by decide) (by omega)
    _ = 10 ^ (len - 1) * 10 ^ e.toNat := pow_add _ _ _
    _ ≤ m * 10 ^ e.toNat := Nat.mul_le_mul_right _ hm'
    _ ≤ m * 10 ^ e.toNat * scale fmt := Nat.le_mul_of_pos_right _ hone

/-- The shortcuts of `ofDecimal` agree with rounding `m * 10 ^ e`. -/
theorem ofDecimal_eq (neg : Bool) (m : Nat) (e : Int) : (ofDecimal neg m e : Ieee fmt) =
    ofRatio neg (m * 10 ^ e.toNat * scale fmt) (10 ^ (-e).toNat) := by
  simp only [ofDecimal]
  split
  · next hsmall =>
    refine ofRatio_congr neg ?_
    rw [nearest_of_small (by decide : 2 * 0 < 1), nearest_of_small]
    rcases hsmall with rfl | hsmall
    · simp
    · exact decimal_small hsmall
  · next hsmall =>
    rw [not_or] at hsmall
    split
    · next hlarge =>
      have hlimit := limit_le_nearest (decimal_large (Nat.pos_of_ne_zero hsmall.1) hlarge)
      rw [ofRatio, dif_neg (Nat.not_lt.mpr hlimit)]
    · split
      · next hneg =>
        rw [show e.toNat = 0 by omega, show (-e).toNat = e.natAbs by omega, pow_zero, Nat.mul_one]
      · next hneg =>
        rw [show e.toNat = e.natAbs by omega, show (-e).toNat = 0 by omega, pow_zero]

theorem ofDecimal_of_round (neg : Bool) {m k : Nat} {e : Int} (hk : Representable fmt k)
    (h : roundDecimal fmt m e = k) : ofDecimal neg m e = .fin neg ⟨k, hk⟩ := by
  rw [ofDecimal_eq]
  exact ofRatio_of_nearest neg hk h

theorem round_of_ofDecimal {neg : Bool} {m : Nat} {e : Int} {s : Bool} {l : Magnitude fmt}
    (h : ofDecimal neg m e = .fin s l) : roundDecimal fmt m e = l.1 := by
  rw [ofDecimal_eq, ofRatio] at h
  split at h
  · cases h
    rfl
  · cases h

/-- Zeros at the end can be counted in the exponent. -/
theorem roundDecimal_shift (m n : Nat) (e : Int) :
    roundDecimal fmt (m * 10 ^ n) e = roundDecimal fmt m (e + n) := by
  refine nearest_congr (by positivity) (by positivity) ?_
  have hexp : n + e.toNat + (-(e + n)).toNat = (e + n).toNat + (-e).toNat := by omega
  calc m * 10 ^ n * 10 ^ e.toNat * scale fmt * 10 ^ (-(e + n)).toNat
      = m * scale fmt * 10 ^ (n + e.toNat + (-(e + n)).toNat) := by ring
    _ = m * scale fmt * 10 ^ ((e + n).toNat + (-e).toNat) := by rw [hexp]
    _ = m * 10 ^ (e + n).toNat * scale fmt * 10 ^ (-e).toNat := by ring

/-! ### The number one -/

theorem div_le_roundHalfEven (num den : Nat) : num / den ≤ roundHalfEven num den := by
  simp only [roundHalfEven]
  split
  · omega
  · split <;> omega

/-- Rounding does not leave the binade downwards. -/
theorem two_pow_log2_le_nearest {k : Nat} (hk : k ≠ 0) : 2 ^ Nat.log2 k ≤ nearest fmt k 1 := by
  have hle : 2 ^ Nat.log2 k ≤ k := Nat.log2_self_le hk
  obtain ⟨c, hc⟩ : ulp fmt k ∣ 2 ^ Nat.log2 k := ulp_dvd_two_pow k
  have hround : c ≤ roundHalfEven k (1 * ulp fmt k) := by
    refine le_trans ?_ (div_le_roundHalfEven k _)
    rw [Nat.one_mul, Nat.le_div_iff_mul_le (ulp_pos fmt k), Nat.mul_comm, ← hc]
    exact hle
  rw [hc, nearest, Nat.div_one, Nat.mul_comm]
  exact Nat.mul_le_mul_right _ hround

theorem ofNat_one : (ofNat 1 : Ieee fmt) = .fin false ⟨1 * scale fmt,
    representable_of_lt (Nat.one_lt_two_pow fmt.precision_pos.ne')⟩ :=
  ofNat_of_lt (Nat.one_lt_two_pow fmt.precision_pos.ne')

theorem one_mul_one : mul (ofNat 1) (ofNat 1) = (ofNat 1 : Ieee fmt) := by
  have hscale : 0 < scale fmt := Nat.two_pow_pos _
  rw [ofNat_one]
  refine ofRatio_of_nearest false _ ?_
  have hratio : nearest fmt (1 * scale fmt * (1 * scale fmt)) (scale fmt) =
      nearest fmt (1 * scale fmt) 1 := nearest_congr hscale Nat.one_pos (by ring)
  rw [hratio]
  exact nearest_of_dvd fmt (representable_of_lt (Nat.one_lt_two_pow fmt.precision_pos.ne')).2

/-- No other integer is rounded to `1`. -/
theorem ofNat_eq_one_iff {n : Nat} : (ofNat n : Ieee fmt) = ofNat 1 ↔ n = 1 := by
  refine ⟨fun h => ?_, fun h => h ▸ rfl⟩
  have hscale : 0 < scale fmt := Nat.two_pow_pos _
  by_cases hn : n < 2
  · have hlt : n < 2 ^ fmt.precision := lt_of_lt_of_le hn
      (Nat.le_self_pow fmt.precision_pos.ne' 2)
    rw [ofNat_of_lt hlt, ofNat_one] at h
    simp only [fin.injEq, Subtype.mk.injEq, true_and] at h
    exact Nat.eq_of_mul_eq_mul_right hscale h
  · rw [ofNat_one, ofNat, ofRatio] at h
    split at h
    · have hnearest : nearest fmt (n * scale fmt) 1 = 1 * scale fmt :=
        congrArg Subtype.val (fin.inj h).2
      have hne : n * scale fmt ≠ 0 := Nat.mul_ne_zero (by omega) hscale.ne'
      have hlog : fmt.scaleLog + 1 ≤ Nat.log2 (n * scale fmt) := by
        rw [Nat.le_log2 hne, pow_succ, Nat.mul_comm]
        exact Nat.mul_le_mul_right _ (by omega)
      have hbinade : 2 ^ Nat.log2 (n * scale fmt) ≤ nearest fmt (n * scale fmt) 1 :=
        two_pow_log2_le_nearest hne
      have hdouble : 2 * scale fmt ≤ 2 ^ Nat.log2 (n * scale fmt) := by
        rw [scale, ← Nat.pow_succ']
        exact Nat.pow_le_pow_right (by omega) hlog
      omega
    · simp at h

end Covm.Ieee
