import Mathlib.Data.Nat.Log
import Mathlib.Tactic.Positivity
import Mathlib.Tactic.Ring

/-!
# Binary floating point

A format has a precision and two exponents. A finite number of the format is a sign and a natural
multiple of `2 ^ -scaleLog`, the smallest positive value; not every multiple is a number of the
format, and `Magnitude` carries the proof that its value is one. All operations compute an exact
ratio and round it once, to the nearest value and to even in case of a tie (`ofRatio`), as
IEEE 754 prescribes. There is one NaN.

Integers of at most `precision` bits are exact (`ofNat_of_lt`), and so is counting down by one
from them (`sub_one`).
-/

namespace Covm

structure Format where
  /-- Significant bits. -/
  precision : Nat
  /-- The smallest positive value is `2 ^ -scaleLog`. -/
  scaleLog : Nat
  /-- Finite values are below `2 ^ limitLog` times the smallest one. -/
  limitLog : Nat
  precision_pos : 0 < precision
  precision_le : precision + scaleLog ≤ limitLog

namespace Ieee

variable (fmt : Format)

/-- `1.0` as a multiple of the smallest value. -/
def scale : Nat := 2 ^ fmt.scaleLog

/-- Beyond the largest finite magnitude. -/
def limit : Nat := 2 ^ fmt.limitLog

/-- The distance of the numbers of the format in the binade of `k`. -/
def ulp (k : Nat) : Nat := 2 ^ (Nat.log2 k + 1 - fmt.precision)

/-- The multiples of the smallest value that are numbers of the format. -/
def Representable (k : Nat) : Prop := k < limit fmt ∧ ulp fmt k ∣ k

/-- The natural number nearest to `num / den`; an even one in case of a tie. -/
def roundHalfEven (num den : Nat) : Nat :=
  let q := num / den
  let r := num % den
  if 2 * r < den then q else if den < 2 * r then q + 1 else q + q % 2

/-- The number nearest to `num / den`, without a bound on the exponent. -/
def nearest (num den : Nat) : Nat :=
  let u := ulp fmt (num / den)
  roundHalfEven num (den * u) * u

theorem ulp_pos (k : Nat) : 0 < ulp fmt k := Nat.two_pow_pos _

theorem lt_ulp_mul (k : Nat) : k < ulp fmt k * 2 ^ fmt.precision := by
  have h : k < 2 ^ (Nat.log2 k + 1) := Nat.lt_log2_self
  have h' : 2 ^ (Nat.log2 k + 1) ≤ 2 ^ (Nat.log2 k + 1 - fmt.precision + fmt.precision) :=
    Nat.pow_le_pow_right (by omega) (by omega)
  rw [ulp, ← pow_add]
  omega

theorem roundHalfEven_le (num den : Nat) : roundHalfEven num den ≤ num / den + 1 := by
  simp only [roundHalfEven]
  split
  · omega
  · split <;> omega

theorem ulp_dvd_of_lt {c e : Nat} (h : c < 2 ^ fmt.precision) : ulp fmt (c * 2 ^ e) ∣ 2 ^ e := by
  rcases Nat.eq_zero_or_pos c with rfl | hc
  · have := fmt.precision_pos
    exact Nat.pow_dvd_pow 2 (by simp; omega)
  · have hne : c * 2 ^ e ≠ 0 := by positivity
    have hlog : Nat.log2 (c * 2 ^ e) < fmt.precision + e := by
      refine (Nat.log2_lt hne).mpr ?_
      rw [pow_add]
      exact Nat.mul_lt_mul_of_pos_right h (by positivity)
    exact Nat.pow_dvd_pow 2 (by omega)

theorem nearest_dvd (num den : Nat) : ulp fmt (nearest fmt num den) ∣ nearest fmt num den := by
  have hq : num / (den * ulp fmt (num / den)) < 2 ^ fmt.precision := by
    rw [← Nat.div_div_eq_div_mul]
    exact Nat.div_lt_of_lt_mul (lt_ulp_mul fmt _)
  have hc : roundHalfEven num (den * ulp fmt (num / den)) ≤ 2 ^ fmt.precision :=
    (roundHalfEven_le _ _).trans hq
  simp only [nearest]
  rcases Nat.lt_or_eq_of_le hc with h | h
  · exact (ulp_dvd_of_lt fmt h).trans (Dvd.intro_left _ rfl)
  · -- rounding up reached the next power of two
    have := fmt.precision_pos
    rw [h, ulp, ulp, ← pow_add, Nat.log2_two_pow]
    exact Nat.pow_dvd_pow 2 (by omega)

/-- A number of the format is the nearest one to itself. -/
theorem nearest_of_dvd {k : Nat} (h : ulp fmt k ∣ k) : nearest fmt k 1 = k := by
  have hk : k % ulp fmt k = 0 := Nat.mod_eq_zero_of_dvd h
  simp only [nearest, roundHalfEven, Nat.div_one, Nat.one_mul, hk, Nat.mul_zero, ulp_pos, if_true]
  exact Nat.div_mul_cancel h

end Ieee

/-- The magnitude of a finite number. -/
abbrev Magnitude (fmt : Format) := { k : Nat // Ieee.Representable fmt k }

inductive Ieee (fmt : Format) where
  | nan
  | inf (neg : Bool)
  | fin (neg : Bool) (mag : Magnitude fmt)
  deriving DecidableEq

namespace Ieee

variable {fmt : Format}

/-- `±num / den`, rounded. -/
def ofRatio (neg : Bool) (num den : Nat) : Ieee fmt :=
  if h : nearest fmt num den < limit fmt then
    .fin neg ⟨nearest fmt num den, h, nearest_dvd fmt num den⟩
  else .inf neg

/-- An exact result, rounded; `zeroNeg` is the sign of an exact zero. -/
def ofInt (zeroNeg : Bool) (x : Int) : Ieee fmt :=
  if x = 0 then ofRatio zeroNeg 0 1 else ofRatio (x < 0) x.natAbs 1

/-- The value as a multiple of the smallest one. -/
def toInt (neg : Bool) (mag : Magnitude fmt) : Int := if neg then -mag.1 else mag.1

/-- `n as f64`. -/
def ofNat (n : Nat) : Ieee fmt := ofRatio false (n * scale fmt) 1

def neg : Ieee fmt → Ieee fmt
  | nan => nan
  | inf s => inf !s
  | fin s k => fin (!s) k

def abs : Ieee fmt → Ieee fmt
  | nan => nan
  | inf _ => inf false
  | fin _ k => fin false k

def add : Ieee fmt → Ieee fmt → Ieee fmt
  | fin s k, fin t l => ofInt (s && t) (toInt s k + toInt t l)
  | inf s, inf t => if s = t then inf s else nan
  | inf s, fin _ _ => inf s
  | fin _ _, inf t => inf t
  | _, _ => nan

def sub (a b : Ieee fmt) : Ieee fmt := a.add b.neg

def mul : Ieee fmt → Ieee fmt → Ieee fmt
  | fin s k, fin t l => ofRatio (s ^^ t) (k.1 * l.1) (scale fmt)
  | inf s, inf t => inf (s ^^ t)
  | inf s, fin t l => if l.1 = 0 then nan else inf (s ^^ t)
  | fin s k, inf t => if k.1 = 0 then nan else inf (s ^^ t)
  | _, _ => nan

def div : Ieee fmt → Ieee fmt → Ieee fmt
  | fin s k, fin t l =>
    if l.1 = 0 then (if k.1 = 0 then nan else inf (s ^^ t))
    else ofRatio (s ^^ t) (k.1 * scale fmt) l.1
  | inf s, fin t _ => inf (s ^^ t)
  | fin s _, inf t => ofRatio (s ^^ t) 0 1
  | _, _ => nan

def rem : Ieee fmt → Ieee fmt → Ieee fmt
  | fin s k, fin _ l => if l.1 = 0 then nan else ofRatio s (k.1 % l.1) 1
  | fin s k, inf _ => fin s k
  | _, _ => nan

/-- To the nearest integer, away from zero in case of a tie. -/
def round : Ieee fmt → Ieee fmt
  | fin s k => ofRatio s ((2 * k.1 + scale fmt) / (2 * scale fmt) * scale fmt) 1
  | x => x

def lt : Ieee fmt → Ieee fmt → Bool
  | fin s k, fin t l => decide (toInt s k < toInt t l)
  | inf s, inf t => s && !t
  | inf s, fin _ _ => s
  | fin _ _, inf t => !t
  | _, _ => false

def eq : Ieee fmt → Ieee fmt → Bool
  | fin s k, fin t l => decide (toInt s k = toInt t l)
  | inf s, inf t => s = t
  | _, _ => false

/-- `x as u64`. -/
def toU64 : Ieee fmt → Nat
  | fin false k => min (k.1 / scale fmt) (2 ^ 64 - 1)
  | inf false => 2 ^ 64 - 1
  | _ => 0

/-! ### Text -/

/-- `m * 10 ^ e`, rounded. An exponent far out of range is decided without computing the power. -/
def ofDecimal (neg : Bool) (m : Nat) (e : Int) : Ieee fmt :=
  let digits : Int := (Nat.toDigits 10 m).length
  if m = 0 ∨ digits + e < -fmt.scaleLog then ofRatio neg 0 1
  else if digits + e > fmt.limitLog + 1 then inf neg
  else if e < 0 then ofRatio neg (m * scale fmt) (10 ^ e.natAbs)
  else ofRatio neg (m * 10 ^ e.natAbs * scale fmt) 1

/-- The decimal exponent of the leading digit: `10 ^ x ≤ k / scale < 10 ^ (x + 1)`. -/
def leadingExponent (fmt : Format) (k : Nat) : Int :=
  if k < scale fmt then -(Nat.clog 10 ((scale fmt + k - 1) / k) : Int)
  else Nat.log 10 (k / scale fmt)

/-- The shortest digits `(m, e)` with `m * 10 ^ e` rounding to `k`, the closest of them. There are
always some with at most as many digits as the format has bits. -/
def shortest (fmt : Format) (k : Nat) : Nat × Int :=
  let x := leadingExponent fmt k
  let candidate (p : Nat) : Option (Nat × Int) :=
    let e : Int := x - p + 1
    -- k / scale = num / den * 10 ^ e
    let num := if e < 0 then k * 10 ^ e.natAbs else k
    let den := if e < 0 then scale fmt else scale fmt * 10 ^ e.natAbs
    let roundTrips (m : Nat) : Bool :=
      match (ofDecimal false m e : Ieee fmt) with
      | fin _ l => l.1 = k
      | _ => false
    let low := num / den
    let high := low + 1
    let closest := roundHalfEven num den
    -- ten to the power `p` has one digit only
    let result (m : Nat) : Nat × Int := if m = 10 ^ p then (1, e + p) else (m, e)
    if roundTrips closest then some (result closest)
    else if roundTrips low then some (result low)
    else if roundTrips high then some (result high)
    else none
  ((List.range (fmt.precision + 1)).findSome? fun p => candidate (p + 1)).getD (0, 0)

/-- The test `shortest` makes for its candidates. -/
theorem fin_eq_iff {x : Ieee fmt} {k : Nat} :
    (match x with
      | fin _ l => decide (l.1 = k)
      | _ => false) = true ↔ ∃ s l, x = fin s l ∧ l.1 = k := by
  cases x <;> simp

/-- The digits of `m * 10 ^ e` in positional notation. -/
def positional (m : Nat) (e : Int) : String :=
  let ds := Nat.toDigits 10 m
  if 0 ≤ e then String.ofList (ds ++ List.replicate e.natAbs '0')
  else
    let n := e.natAbs
    let ds := List.replicate (n + 1 - ds.length) '0' ++ ds
    String.ofList (ds.take (ds.length - n)) ++ "." ++ String.ofList (ds.drop (ds.length - n))

def sign (neg : Bool) : String := if neg then "-" else ""

/-- `Display`. -/
def toStr : Ieee fmt → String
  | nan => "NaN"
  | inf s => sign s ++ "inf"
  | fin s k =>
    if k.1 = 0 then sign s ++ "0"
    else
      let (m, e) := shortest fmt k.1
      sign s ++ positional m e

/-- `Debug`: a whole number keeps `.0`, and very small or large values have an exponent. -/
def debug : Ieee fmt → String
  | nan => "NaN"
  | inf s => sign s ++ "inf"
  | fin s k =>
    if k.1 = 0 then sign s ++ "0.0"
    else
      let (m, e) := shortest fmt k.1
      let x := e + (Nat.toDigits 10 m).length - 1
      if x < -4 ∨ 16 ≤ x then
        let ds := Nat.toDigits 10 m
        let frac := String.ofList ds.tail
        sign s ++ String.ofList (ds.take 1) ++ (if frac = "" then "" else "." ++ frac) ++
          "e" ++ toString x
      else if 0 ≤ e then sign s ++ positional m e ++ ".0"
      else sign s ++ positional m e

/-- `{:.2}`. -/
def fixed2 : Ieee fmt → String
  | nan => "NaN"
  | inf s => sign s ++ "inf"
  | fin s k => sign s ++ positional (roundHalfEven (k.1 * 100) (scale fmt)) (-2)

def digitsOf (cs : List Char) : List Char × List Char := cs.span Char.isDigit

def natOf (cs : List Char) : Nat :=
  cs.foldl (fun n c => 10 * n + (c.toNat - '0'.toNat)) 0

/-- The exponent after `e`, if the rest of the text is one. -/
def exponent : List Char → Option Int
  | [] => some 0
  | c :: cs =>
    if c = 'e' ∨ c = 'E' then
      let (neg, cs) := match cs with
        | '-' :: cs => (true, cs)
        | '+' :: cs => (false, cs)
        | cs => (false, cs)
      if cs.isEmpty ∨ !cs.all Char.isDigit then none
      else some (if neg then -(natOf cs : Int) else natOf cs)
    else none

/-- A text without its sign. -/
def parseUnsigned (neg : Bool) (cs : List Char) : Option (Ieee fmt) :=
  let word := String.ofList (cs.map Char.toLower)
  if word = "nan" then some nan
  else if word = "inf" ∨ word = "infinity" then some (inf neg)
  else
    let (whole, rest) := digitsOf cs
    let (frac, rest) := match rest with
      | '.' :: cs => digitsOf cs
      | cs => ([], cs)
    if whole.isEmpty ∧ frac.isEmpty then none
    else (exponent rest).map fun e =>
      ofDecimal neg (natOf (whole ++ frac)) (e - frac.length)

/-- `str::parse::<f64>`. -/
def parse (s : String) : Option (Ieee fmt) :=
  match s.toList with
  | '-' :: cs => parseUnsigned true cs
  | '+' :: cs => parseUnsigned false cs
  | cs => parseUnsigned false cs

/-! ### Small integers are exact -/

theorem representable_of_lt {n : Nat} (h : n < 2 ^ fmt.precision) :
    Representable fmt (n * scale fmt) := by
  constructor
  · calc n * scale fmt < 2 ^ fmt.precision * scale fmt :=
          Nat.mul_lt_mul_of_pos_right h (Nat.two_pow_pos _)
      _ = 2 ^ (fmt.precision + fmt.scaleLog) := (pow_add _ _ _).symm
      _ ≤ limit fmt := Nat.pow_le_pow_right (by omega) fmt.precision_le
  · exact (ulp_dvd_of_lt fmt h).trans (Dvd.intro_left _ rfl)

theorem ofRatio_of_representable (neg : Bool) {k : Nat} (h : Representable fmt k) :
    ofRatio neg k 1 = .fin neg ⟨k, h⟩ := by
  have hk := nearest_of_dvd fmt h.2
  simp only [ofRatio, hk, h.1, dif_pos]

theorem ofNat_of_lt {n : Nat} (h : n < 2 ^ fmt.precision) :
    ofNat n = .fin false ⟨n * scale fmt, representable_of_lt h⟩ :=
  ofRatio_of_representable false _

theorem ofInt_of_representable {k : Nat} (h : Representable fmt k) :
    ofInt false k = .fin false ⟨k, h⟩ := by
  rcases Nat.eq_zero_or_pos k with rfl | hk
  · exact ofRatio_of_representable false h
  · have hne : (k : Int) ≠ 0 := by omega
    have hneg : ¬ (k : Int) < 0 := by omega
    simp only [ofInt, hne, hneg, if_false, decide_false, Int.natAbs_natCast]
    exact ofRatio_of_representable false h

theorem sub_one {n : Nat} (h : n + 1 < 2 ^ fmt.precision) :
    sub (ofNat (n + 1)) (ofNat 1) = (ofNat n : Ieee fmt) := by
  have hn : n < 2 ^ fmt.precision := by omega
  have hone : 1 < 2 ^ fmt.precision := by omega
  have hsum : (((n + 1) * scale fmt : Nat) : Int) + -((1 * scale fmt : Nat) : Int) =
      ((n * scale fmt : Nat) : Int) := by
    push_cast
    ring
  rw [ofNat_of_lt h, ofNat_of_lt hone, ofNat_of_lt hn]
  simp only [sub, neg, add, toInt, Bool.not_false, Bool.false_and, Bool.false_eq_true, if_true,
    if_false, hsum]
  exact ofInt_of_representable (representable_of_lt hn)

theorem lt_ofNat {m n : Nat} (hm : m < 2 ^ fmt.precision) (hn : n < 2 ^ fmt.precision) :
    lt (ofNat m) (ofNat n : Ieee fmt) = decide (m < n) := by
  rw [ofNat_of_lt hm, ofNat_of_lt hn]
  have hscale : 0 < scale fmt := Nat.two_pow_pos _
  have hiff : m * scale fmt < n * scale fmt ↔ m < n := Nat.mul_lt_mul_right hscale
  simp only [lt, toInt, Bool.false_eq_true, if_false, Int.ofNat_lt, hiff]

theorem eq_ofNat {m n : Nat} (hm : m < 2 ^ fmt.precision) (hn : n < 2 ^ fmt.precision) :
    eq (ofNat m) (ofNat n : Ieee fmt) = decide (m = n) := by
  rw [ofNat_of_lt hm, ofNat_of_lt hn]
  have hscale : 0 < scale fmt := Nat.two_pow_pos _
  have hiff : m * scale fmt = n * scale fmt ↔ m = n := Nat.mul_left_inj hscale.ne'
  simp only [eq, toInt, Bool.false_eq_true, if_false, Int.ofNat_inj, hiff]

theorem zero_lt_ofNat {n : Nat} (h : n < 2 ^ fmt.precision) :
    lt (ofNat 0) (ofNat n : Ieee fmt) = decide (0 < n) :=
  lt_ofNat (Nat.two_pow_pos _) h

theorem toU64_ofNat {n : Nat} (h : n < 2 ^ fmt.precision) (h64 : n < 2 ^ 64) :
    toU64 (ofNat n : Ieee fmt) = n := by
  have hdiv : n * scale fmt / scale fmt = n := Nat.mul_div_cancel _ (Nat.two_pow_pos _)
  rw [ofNat_of_lt h]
  show min (n * scale fmt / scale fmt) (2 ^ 64 - 1) = n
  rw [hdiv]
  omega

end Ieee

end Covm
