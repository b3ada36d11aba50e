import Covm.Number.Rounding

/-!
# Numbers as text

The text of a number reads back as the number (`parse_toStr`), whatever the format. The digits
`toStr` finds round to the number, because some digits are always found: with one digit more than
the format has bits, the closest decimal is closer than a quarter of the distance between two
numbers of the format (`roundDecimal_closest`).
-/

namespace Covm.Ieee

variable {fmt : Format}

/-! ### Shortest digits -/

theorem leadingExponent_le {k : Nat} (hk : 0 < k) :
    scale fmt * 10 ^ (leadingExponent fmt k).toNat ≤ k * 10 ^ (-leadingExponent fmt k).toNat := by
  have hscale : 0 < scale fmt := Nat.two_pow_pos _
  unfold leadingExponent
  split
  · set c := Nat.clog 10 ((scale fmt + k - 1) / k) with hc
    have hceil : (scale fmt + k - 1) / k ≤ 10 ^ c := Nat.le_pow_clog (by decide) _
    have hle : scale fmt ≤ k * 10 ^ c := by
      have := Nat.lt_div_mul_add hk (a := scale fmt + k - 1)
      have := Nat.mul_le_mul_right k hceil
      rw [Nat.mul_comm k]
      omega
    simpa using hle
  · next hlt =>
    have hq : k / scale fmt ≠ 0 := by
      have := Nat.div_pos (Nat.not_lt.mp hlt) hscale
      omega
    have hpow : 10 ^ Nat.log 10 (k / scale fmt) ≤ k / scale fmt := Nat.pow_log_le_self 10 hq
    have hle := (Nat.le_div_iff_mul_le hscale).mp hpow
    rw [Nat.mul_comm] at hle
    simpa using hle

/-- With one digit more than the format has bits, two decimals are closer than half the distance of
the numbers of the format. -/
theorem decimal_spacing {k : Nat} (hk : 0 < k) {e : Int}
    (he : e = leadingExponent fmt k - fmt.precision) :
    2 * (scale fmt * 10 ^ e.toNat) < ulp fmt k * 10 ^ (-e).toNat := by
  have hprecision := fmt.precision_pos
  have hlead : scale fmt * 10 ^ (leadingExponent fmt k).toNat ≤ _ := leadingExponent_le hk
  have hulp := lt_ulp_mul fmt k
  set x := leadingExponent fmt k
  have hexp : e.toNat + ((-x).toNat + fmt.precision) = x.toNat + (-e).toNat := by omega
  have hpow : 2 * 2 ^ fmt.precision ≤ 10 ^ fmt.precision :=
    calc 2 * 2 ^ fmt.precision = 2 ^ (fmt.precision + 1) := (Nat.pow_succ').symm
      _ ≤ 2 ^ (2 * fmt.precision) := Nat.pow_le_pow_right (by decide) (by omega)
      _ = (2 ^ 2) ^ fmt.precision := pow_mul _ _ _
      _ ≤ 10 ^ fmt.precision := Nat.pow_le_pow_left (by decide) _
  refine Nat.lt_of_mul_lt_mul_right (a := 10 ^ ((-x).toNat + fmt.precision)) ?_
  calc 2 * (scale fmt * 10 ^ e.toNat) * 10 ^ ((-x).toNat + fmt.precision)
      = 2 * scale fmt * 10 ^ (e.toNat + ((-x).toNat + fmt.precision)) := by ring
    _ = 2 * (scale fmt * 10 ^ x.toNat) * 10 ^ (-e).toNat := by rw [hexp]; ring
    _ ≤ 2 * (k * 10 ^ (-x).toNat) * 10 ^ (-e).toNat :=
        Nat.mul_le_mul_right _ (Nat.mul_le_mul_left 2 hlead)
    _ < 2 * (ulp fmt k * 2 ^ fmt.precision * 10 ^ (-x).toNat) * 10 ^ (-e).toNat := by gcongr
    _ = ulp fmt k * (2 * 2 ^ fmt.precision) * 10 ^ (-x).toNat * 10 ^ (-e).toNat := by ring
    _ ≤ ulp fmt k * 10 ^ fmt.precision * 10 ^ (-x).toNat * 10 ^ (-e).toNat := by gcongr
    _ = ulp fmt k * 10 ^ (-e).toNat * 10 ^ ((-x).toNat + fmt.precision) := by ring

/-- With one digit more than the format has bits, the closest decimal is rounded back. -/
theorem roundDecimal_closest {k : Nat} (hk : 0 < k) (hdvd : ulp fmt k ∣ k) {e : Int}
    (he : e = leadingExponent fmt k - fmt.precision) :
    roundDecimal fmt (roundHalfEven (k * 10 ^ (-e).toNat) (scale fmt * 10 ^ e.toNat)) e = k := by
  have hspacing := decimal_spacing hk he
  have hden : 0 < scale fmt * 10 ^ e.toNat := Nat.mul_pos (Nat.two_pow_pos _) (by positivity)
  obtain ⟨hlow, hhigh⟩ := roundHalfEven_close (k * 10 ^ (-e).toNat) hden
  set c := roundHalfEven (k * 10 ^ (-e).toNat) (scale fmt * 10 ^ e.toNat)
  refine nearest_of_close hdvd hk (by positivity) ?_ ?_
  · nlinarith
  · nlinarith

theorem exists_of_findSome?_getD {α β : Type} {f : α → Option β} {l : List α} {d b : β}
    (h : (l.findSome? f).getD d = b) (hsome : ∃ a ∈ l, (f a).isSome = true) :
    ∃ a, f a = some b := by
  obtain ⟨b', hb⟩ := Option.isSome_iff_exists.mp (List.findSome?_isSome_iff.mpr hsome)
  obtain ⟨a, -, ha⟩ := List.exists_of_findSome?_eq_some hb
  rw [hb] at h
  cases h
  exact ⟨a, ha⟩

theorem ofDecimal_fin_iff {k : Nat} (hk : Representable fmt k) {m : Nat} {e : Int} :
    (∃ s l, (ofDecimal false m e : Ieee fmt) = fin s l ∧ l.1 = k) ↔ roundDecimal fmt m e = k := by
  constructor
  · rintro ⟨s, l, hl, rfl⟩
    exact round_of_ofDecimal hl
  · intro h
    exact ⟨false, ⟨k, hk⟩, ofDecimal_of_round false hk h, rfl⟩

theorem scaled_down (a : Nat) (e : Int) :
    (if e < 0 then a * 10 ^ e.natAbs else a) = a * 10 ^ (-e).toNat := by
  split
  · rw [show (-e).toNat = e.natAbs by omega]
  · rw [show (-e).toNat = 0 by omega, pow_zero, Nat.mul_one]

theorem scaled_up (a : Nat) (e : Int) :
    (if e < 0 then a else a * 10 ^ e.natAbs) = a * 10 ^ e.toNat := by
  split
  · rw [show e.toNat = 0 by omega, pow_zero, Nat.mul_one]
  · rw [show e.toNat = e.natAbs by omega]

/-- The digits found round to the number. -/
theorem roundDecimal_shortest {k : Nat} (hk : 0 < k) (h : Representable fmt k) :
    roundDecimal fmt (shortest fmt k).1 (shortest fmt k).2 = k := by
  generalize hd : shortest fmt k = d
  unfold shortest at hd
  have hclosest := roundDecimal_closest hk h.2 (e := leadingExponent fmt k -
    ((fmt.precision + 1 : Nat) : Int) + 1) (by push_cast; ring)
  obtain ⟨p, hp⟩ := exists_of_findSome?_getD hd
    ⟨fmt.precision, List.mem_range.mpr (Nat.lt_succ_self _), by
      simp only [fin_eq_iff, ofDecimal_fin_iff h, scaled_down, scaled_up, hclosest, if_true,
        Option.isSome_some]⟩
  -- the digits `10 ^ q` are replaced by `1`, with the zeros in the exponent
  have hresult {m q : Nat} {e : Int} (hm : roundDecimal fmt m e = k)
      (hd : (if m = 10 ^ q then (1, e + q) else (m, e)) = d) : roundDecimal fmt d.1 d.2 = k := by
    subst hd
    split
    · next hpow =>
      rw [hpow, ← Nat.one_mul (10 ^ q), roundDecimal_shift] at hm
      exact hm
    · exact hm
  simp only [fin_eq_iff, ofDecimal_fin_iff h, scaled_down, scaled_up] at hp
  split at hp
  · next hm => exact hresult hm (Option.some.inj hp)
  · split at hp
    · next hm => exact hresult hm (Option.some.inj hp)
    · split at hp
      · next hm => exact hresult hm (Option.some.inj hp)
      · cases hp

/-! ### Reading digits -/

theorem natOf_toDigits (m : Nat) : natOf (Nat.toDigits 10 m) = m := Nat.ofDigitChars_ten_toDigits

theorem foldl_zeros (a n : Nat) :
    (List.replicate n '0').foldl (fun n c => 10 * n + (c.toNat - '0'.toNat)) a = a * 10 ^ n := by
  induction n generalizing a with
  | zero => simp
  | succ n ih =>
    rw [List.replicate_succ, List.foldl_cons, ih]
    simp only [Nat.sub_self, Nat.add_zero]
    ring

theorem natOf_append_zeros (cs : List Char) (n : Nat) :
    natOf (cs ++ List.replicate n '0') = natOf cs * 10 ^ n := by
  rw [natOf, List.foldl_append, foldl_zeros, natOf]

theorem natOf_zeros_append (cs : List Char) (n : Nat) :
    natOf (List.replicate n '0' ++ cs) = natOf cs := by
  rw [natOf, List.foldl_append, foldl_zeros, Nat.zero_mul, natOf]

theorem digitsOf_append {ds : List Char} (rest : List Char) (hds : ∀ c ∈ ds, c.isDigit = true)
    (hrest : ∀ c cs, rest = c :: cs → c.isDigit = false) : digitsOf (ds ++ rest) = (ds, rest) := by
  have htake : rest.takeWhile Char.isDigit = [] := by
    cases rest with
    | nil => rfl
    | cons c cs => simp [hrest c cs rfl]
  have hdrop : rest.dropWhile Char.isDigit = rest := by
    cases rest with
    | nil => rfl
    | cons c cs => simp [hrest c cs rfl]
  rw [digitsOf, List.span_eq_takeWhile_dropWhile, List.takeWhile_append_of_pos hds,
    List.dropWhile_append_of_pos hds, htake, hdrop, List.append_nil]

theorem toLower_of_isDigit {c : Char} (h : c.isDigit = true) : c.toLower = c := by
  refine dif_neg ?_
  rintro ⟨hA, -⟩
  simp only [Char.isDigit, Bool.and_eq_true, decide_eq_true_eq] at h
  have hle : 'A'.val ≤ '9'.val := UInt32.le_trans hA h.2
  exact absurd hle (by decide)

/-- A text whose first letter differs from that of a word is not the word. -/
theorem word_ne {c t : Char} {cs ts : List Char} {word : String} (hword : word.toList = t :: ts)
    (h : c.toLower ≠ t) : String.ofList ((c :: cs).map Char.toLower) ≠ word := by
  intro heq
  have hlist := congrArg String.toList heq
  rw [String.toList_ofList, hword] at hlist
  exact h (List.cons.inj hlist).1

theorem toLower_ne {c t : Char} (hc : c.isDigit = true) (ht : t.isDigit = false) :
    c.toLower ≠ t := by
  rintro rfl
  rw [toLower_of_isDigit hc, hc] at ht
  cases ht

theorem not_nan {c : Char} (cs : List Char) (h : c.toLower ≠ 'n') :
    String.ofList ((c :: cs).map Char.toLower) ≠ "nan" :=
  word_ne (show "nan".toList = _ from rfl) h

theorem not_infinity {c : Char} (cs : List Char) (h : c.toLower ≠ 'i') :
    ¬ (String.ofList ((c :: cs).map Char.toLower) = "inf" ∨
      String.ofList ((c :: cs).map Char.toLower) = "infinity") := by
  rintro (hinf | hinfinity)
  · exact word_ne (show "inf".toList = _ from rfl) h hinf
  · exact word_ne (show "infinity".toList = _ from rfl) h hinfinity

theorem head_isDigit {ds : List Char} (rest : List Char) (hne : ds ≠ [])
    (hds : ∀ c ∈ ds, c.isDigit = true) :
    ∃ c cs, ds ++ rest = c :: cs ∧ c.isDigit = true := by
  obtain ⟨c, cs, rfl⟩ := List.exists_cons_of_ne_nil hne
  exact ⟨c, cs ++ rest, rfl, hds c List.mem_cons_self⟩

/-- A whole number. -/
theorem parseUnsigned_whole (neg : Bool) {ds : List Char} (hne : ds ≠ [])
    (hds : ∀ c ∈ ds, c.isDigit = true) :
    parseUnsigned neg ds = some (ofDecimal neg (natOf ds) 0 : Ieee fmt) := by
  obtain ⟨c, cs, rfl⟩ := List.exists_cons_of_ne_nil hne
  have hc := hds c List.mem_cons_self
  have hsplit := digitsOf_append [] hds (by simp)
  rw [List.append_nil] at hsplit
  rw [parseUnsigned, if_neg (not_nan cs (toLower_ne hc (by decide))),
    if_neg (not_infinity cs (toLower_ne hc (by decide)))]
  simp [hsplit, exponent]

/-- A number with a decimal point. -/
theorem parseUnsigned_point (neg : Bool) {whole frac : List Char} (hne : whole ≠ [])
    (hwhole : ∀ c ∈ whole, c.isDigit = true) (hfrac : ∀ c ∈ frac, c.isDigit = true) :
    parseUnsigned neg (whole ++ '.' :: frac) =
      some (ofDecimal neg (natOf (whole ++ frac)) (-(frac.length : Int)) : Ieee fmt) := by
  obtain ⟨c, cs, rfl⟩ := List.exists_cons_of_ne_nil hne
  have hc := hwhole c List.mem_cons_self
  have hsplit := digitsOf_append ('.' :: frac) hwhole (by simp)
  have hsplit' := digitsOf_append [] hfrac (by simp)
  rw [List.append_nil] at hsplit'
  rw [List.cons_append] at hsplit ⊢
  rw [parseUnsigned, if_neg (not_nan _ (toLower_ne hc (by decide))),
    if_neg (not_infinity _ (toLower_ne hc (by decide)))]
  simp [hsplit, hsplit', exponent]

/-! ### What is printed is read back -/

theorem isDigit_of_toDigits {m : Nat} : ∀ c ∈ Nat.toDigits 10 m, c.isDigit = true :=
  fun _ hc => Nat.isDigit_of_mem_toDigits (by decide) (by decide) hc

theorem isDigit_of_zeros {n : Nat} : ∀ c ∈ List.replicate n '0', c.isDigit = true := by
  intro c hc
  rw [List.eq_of_mem_replicate hc]
  decide

theorem isDigit_append {cs ds : List Char} (hcs : ∀ c ∈ cs, c.isDigit = true)
    (hds : ∀ c ∈ ds, c.isDigit = true) : ∀ c ∈ cs ++ ds, c.isDigit = true := by
  intro c hc
  rcases List.mem_append.mp hc with h | h
  · exact hcs c h
  · exact hds c h

/-- The text of a magnitude starts with a digit and reads as that magnitude. -/
theorem parseUnsigned_positional (neg : Bool) {m k : Nat} {e : Int} (hk : Representable fmt k)
    (h : roundDecimal fmt m e = k) :
    (∃ c cs, (positional m e).toList = c :: cs ∧ c.isDigit = true) ∧
      parseUnsigned neg (positional m e).toList = some (.fin neg ⟨k, hk⟩ : Ieee fmt) := by
  unfold positional
  dsimp only
  split
  · next he =>
    have hdigits := isDigit_append (isDigit_of_toDigits (m := m))
      (isDigit_of_zeros (n := e.natAbs))
    have hne : Nat.toDigits 10 m ++ List.replicate e.natAbs '0' ≠ [] := by
      simp [Nat.toDigits_ne_nil]
    rw [String.toList_ofList]
    refine ⟨head_isDigit _ Nat.toDigits_ne_nil isDigit_of_toDigits, ?_⟩
    have hvalue : roundDecimal fmt (m * 10 ^ e.natAbs) 0 = k := by
      rw [roundDecimal_shift, ← h]
      congr 1
      omega
    rw [parseUnsigned_whole neg hne hdigits, natOf_append_zeros, natOf_toDigits,
      ofDecimal_of_round neg hk hvalue]
  · next he =>
    set ds := List.replicate (e.natAbs + 1 - (Nat.toDigits 10 m).length) '0' ++ Nat.toDigits 10 m
      with hds
    have hdigits : ∀ c ∈ ds, c.isDigit = true := isDigit_append isDigit_of_zeros isDigit_of_toDigits
    have hlength : e.natAbs + 1 ≤ ds.length := by
      rw [hds, List.length_append, List.length_replicate]
      omega
    have hwhole : ds.take (ds.length - e.natAbs) ≠ [] := by
      rw [← List.length_pos_iff, List.length_take]
      omega
    have hwhole' : ∀ c ∈ ds.take (ds.length - e.natAbs), c.isDigit = true :=
      fun c hc => hdigits c (List.mem_of_mem_take hc)
    have hfrac' : ∀ c ∈ ds.drop (ds.length - e.natAbs), c.isDigit = true :=
      fun c hc => hdigits c (List.mem_of_mem_drop hc)
    have htext : (String.ofList (ds.take (ds.length - e.natAbs)) ++ "." ++
        String.ofList (ds.drop (ds.length - e.natAbs))).toList =
        ds.take (ds.length - e.natAbs) ++ '.' :: ds.drop (ds.length - e.natAbs) := by
      simp
    have hexponent : -((ds.drop (ds.length - e.natAbs)).length : Int) = e := by
      rw [List.length_drop]
      omega
    rw [htext]
    refine ⟨head_isDigit _ hwhole hwhole', ?_⟩
    rw [parseUnsigned_point neg hwhole hwhole' hfrac', hexponent, List.take_append_drop, hds,
      natOf_zeros_append, natOf_toDigits, ofDecimal_of_round neg hk h]

theorem parse_sign (neg : Bool) {text : String}
    (h : ∃ c cs, text.toList = c :: cs ∧ c.isDigit = true) :
    (parse (sign neg ++ text) : Option (Ieee fmt)) = parseUnsigned neg text.toList := by
  obtain ⟨c, cs, htext, hc⟩ := h
  cases neg with
  | true =>
    have hlist : (sign true ++ text).toList = '-' :: text.toList := by simp [sign]
    rw [parse, hlist]
    rfl
  | false =>
    have hlist : (sign false ++ text).toList = text.toList := by simp [sign]
    rw [parse, hlist, htext]
    split
    · next heq =>
      rw [(List.cons.inj heq).1] at hc
      exact absurd hc (by decide)
    · next heq =>
      rw [(List.cons.inj heq).1] at hc
      exact absurd hc (by decide)
    · rfl

theorem parse_nan : parse "NaN" = some (nan : Ieee fmt) := by
  have hlist : "NaN".toList = ['N', 'a', 'N'] := by decide
  have hword : String.ofList (['N', 'a', 'N'].map Char.toLower) = "nan" := by decide
  rw [parse, hlist]
  show parseUnsigned false ['N', 'a', 'N'] = _
  rw [parseUnsigned, if_pos hword]

theorem parse_inf (neg : Bool) : parse (sign neg ++ "inf") = some (inf neg : Ieee fmt) := by
  have hword : String.ofList (['i', 'n', 'f'].map Char.toLower) = "inf" := by decide
  have hinf (neg : Bool) : parseUnsigned neg ['i', 'n', 'f'] = some (inf neg : Ieee fmt) := by
    rw [parseUnsigned, hword, if_neg (by decide), if_pos (.inl rfl)]
  cases neg with
  | true =>
    have hlist : (sign true ++ "inf").toList = ['-', 'i', 'n', 'f'] := by decide
    rw [parse, hlist]
    exact hinf true
  | false =>
    have hlist : (sign false ++ "inf").toList = ['i', 'n', 'f'] := by decide
    rw [parse, hlist]
    exact hinf false

/-- What `toStr` prints, `parse` reads. -/
theorem parse_toStr (x : Ieee fmt) : parse (toStr x) = some x := by
  cases x with
  | nan => exact parse_nan
  | inf neg => exact parse_inf neg
  | fin neg mag =>
    obtain ⟨k, hk⟩ := mag
    rw [toStr]
    split
    · next hzero =>
      obtain rfl : k = 0 := hzero
      have hhead : ∃ c cs, "0".toList = c :: cs ∧ c.isDigit = true := ⟨'0', [], rfl, by decide⟩
      have hround : roundDecimal fmt 0 0 = 0 := nearest_of_small (by simp)
      rw [parse_sign neg hhead]
      show parseUnsigned neg ['0'] = _
      rw [parseUnsigned_whole neg (by simp) (by simp)]
      exact congrArg some (ofDecimal_of_round neg hk hround)
    · next hpos =>
      have hk' : 0 < k := Nat.pos_of_ne_zero hpos
      obtain ⟨hhead, hparse⟩ := parseUnsigned_positional neg hk (roundDecimal_shortest hk' hk)
      exact (parse_sign neg hhead).trans hparse

/-! ### What is no number -/

theorem parseUnsigned_none (neg : Bool) {c : Char} {cs : List Char} (hdigit : c.isDigit = false)
    (hpoint : c ≠ '.') (hnan : String.ofList ((c :: cs).map Char.toLower) ≠ "nan")
    (hinf : c.toLower ≠ 'i') : (parseUnsigned neg (c :: cs) : Option (Ieee fmt)) = none := by
  have hsplit : digitsOf ([] ++ c :: cs) = ([], c :: cs) :=
    digitsOf_append (c :: cs) (by simp) (by simp [hdigit])
  rw [List.nil_append] at hsplit
  rw [parseUnsigned, if_neg hnan, if_neg (not_infinity cs hinf)]
  simp [hsplit, hpoint]

/-- A text is no number if it starts like none and is not `nan`. -/
theorem parse_none {text : String} {c : Char} {cs : List Char} (htext : text.toList = c :: cs)
    (hdigit : c.isDigit = false) (hpoint : c ≠ '.') (hminus : c ≠ '-') (hplus : c ≠ '+')
    (hnan : String.ofList ((c :: cs).map Char.toLower) ≠ "nan") (hinf : c.toLower ≠ 'i') :
    (parse text : Option (Ieee fmt)) = none := by
  rw [parse, htext]
  split
  · next heq => exact absurd (List.cons.inj heq).1 hminus
  · next heq => exact absurd (List.cons.inj heq).1 hplus
  · exact parseUnsigned_none false hdigit hpoint hnan hinf

theorem parse_true : (parse "true" : Option (Ieee fmt)) = none :=
  parse_none (show "true".toList = 't' :: ['r', 'u', 'e'] from rfl) (by decide) (by decide)
    (by decide) (by decide) (by decide) (by decide)

theorem parse_false : (parse "false" : Option (Ieee fmt)) = none :=
  parse_none (show "false".toList = 'f' :: ['a', 'l', 's', 'e'] from rfl) (by decide) (by decide)
    (by decide) (by decide) (by decide) (by decide)

theorem parse_null : (parse "null" : Option (Ieee fmt)) = none :=
  parse_none (show "null".toList = 'n' :: ['u', 'l', 'l'] from rfl) (by decide) (by decide)
    (by decide) (by decide) (by decide) (by decide)

theorem parse_quoted (s : String) : (parse ("\"" ++ s ++ "\"") : Option (Ieee fmt)) = none := by
  have hlist : ("\"" ++ s ++ "\"").toList = '"' :: (s.toList ++ ['"']) := by simp
  exact parse_none hlist (by decide) (by decide) (by decide) (by decide)
    (not_nan _ (by decide)) (by decide)

end Covm.Ieee
