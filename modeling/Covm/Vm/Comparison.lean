import Covm.Number.Order
import Covm.Number.Text
import Covm.Vm.Value
import Mathlib.Data.String.Basic
import Mathlib.Tactic.NormNum.Basic

/-!
# The three comparisons of values (`typed.rs`)

Less and greater compare numbers, except of two strings. Equality compares texts as soon as the
types differ, and has a tolerance for two numbers: a number and a boolean, or null and zero, are
then none of the three to each other, and two numbers near each other are two of them.
-/

namespace Covm

namespace TypedValue

/-- The three comparisons succeed. -/
structure Compared (a b : TypedValue Binary64) (less equal greater : Bool) : Prop where
  less : a.lessThan b = .ok (.boolean less)
  equal : a.equals b = .ok (.boolean equal)
  greater : a.greaterThan b = .ok (.boolean greater)

/-- Exactly one answer is yes, and the other way round the answers are the other way round. -/
structure Trichotomy (a b : TypedValue Binary64) (less equal greater : Bool) : Prop where
  one : [less, equal, greater].count true = 1
  symm : b.equals a = .ok (.boolean equal)
  swap : b.greaterThan a = .ok (.boolean less)

/-- The numbers the values stand for are one below the other. -/
def Apart (a b : TypedValue Binary64) : Prop :=
  ∃ x y, a.asNumber = .ok x ∧ b.asNumber = .ok y ∧ Ieee.Apart x y

/-- The difference is less than the tolerance of the equality. -/
def Near (x y : Binary64) : Prop :=
  Number.lt (Number.abs (Number.sub x y)) (Number.epsilon : Binary64) = true

/-- The values that the comparisons tell apart, or know to be the same. -/
def Told : TypedValue Binary64 → TypedValue Binary64 → Prop
  | .number x, .number y =>
    Number.eq x y = true ∧ Number.isFinite x = true ∨ Ieee.Apart x y ∧ ¬ Near x y
  | .boolean _, .boolean _ | .string _, .string _ | .null, .null => True
  | .number x, .string s | .string s, .number x =>
    s = Number.toStr x ∨ Apart (.number x) (.string s)
  | a, b => Apart a b

variable {a b : TypedValue Binary64} {less equal greater : Bool} {x y : Binary64}

theorem apart_iff (ha : a.asNumber = .ok x) (hb : b.asNumber = .ok y) :
    Apart a b ↔ Ieee.Apart x y := by
  constructor
  · rintro ⟨x', y', hx', hy', hapart⟩
    obtain rfl := Except.ok.inj (ha.symm.trans hx')
    obtain rfl := Except.ok.inj (hb.symm.trans hy')
    exact hapart
  · exact fun hapart => ⟨x, y, ha, hb, hapart⟩

/-- Both orders compare numbers, unless they compare two strings. -/
theorem order_numeric (hstring : ∀ s t, ¬ (a = .string s ∧ b = .string t)) :
    a.lessThan b = (do return boolean (Number.lt (← a.asNumber) (← b.asNumber))) ∧
      a.greaterThan b = (do return boolean (Number.gt (← a.asNumber) (← b.asNumber))) := by
  cases a <;> cases b <;> first | exact ⟨rfl, rfl⟩ | exact absurd ⟨rfl, rfl⟩ (hstring _ _)

theorem Compared.numbers (h : Compared a b less equal greater)
    (hstring : ∀ s t, ¬ (a = .string s ∧ b = .string t)) :
    ∃ x y, a.asNumber = .ok x ∧ b.asNumber = .ok y ∧ less = Number.lt x y ∧
      greater = Number.lt y x := by
  have hless := h.less
  have hgreater := h.greater
  rw [(order_numeric hstring).1] at hless
  rw [(order_numeric hstring).2] at hgreater
  cases ha : a.asNumber with
  | error e =>
    rw [ha] at hless
    cases hless
  | ok x =>
    cases hb : b.asNumber with
    | error e =>
      rw [ha, hb] at hless
      cases hless
    | ok y =>
      rw [ha, hb] at hless hgreater
      cases hless
      cases hgreater
      exact ⟨x, y, rfl, rfl, rfl, rfl⟩

theorem Compared.swap (h : Compared a b less equal greater) :
    b.greaterThan a = .ok (.boolean less) := by
  by_cases hstring : ∃ s t, a = .string s ∧ b = .string t
  · obtain ⟨s, t, rfl, rfl⟩ := hstring
    exact h.less
  · obtain ⟨x, y, ha, hb, rfl, -⟩ := h.numbers fun s t hst => hstring ⟨s, t, hst⟩
    rw [(order_numeric fun s t hst => hstring ⟨t, s, hst.symm⟩).2, hb, ha]
    rfl

/-- With numbers that are compared it is up to the equality. -/
theorem count_iff : [Number.lt x y, equal, Number.lt y x].count true = 1 ↔
    (equal = true ↔ ¬ Ieee.Apart x y) := by
  have hasymm : Number.lt x y = true → Number.lt y x = false := Ieee.lt_asymm
  show _ ↔ (_ ↔ ¬ (Number.lt x y = true ∨ Number.lt y x = true))
  cases hlt : Number.lt x y <;> cases hgt : Number.lt y x <;> cases equal <;>
    simp_all

theorem equals_comm (a b : TypedValue Binary64) : a.equals b = b.equals a := by
  have hanswer {c d : Bool} (h : c = d) :
      (Except.ok (boolean c) : Except TypedValueError (TypedValue Binary64)) = .ok (boolean d) := by
    rw [h]
  cases a <;> cases b
  case number.number x y =>
    exact hanswer (congrArg (Number.lt · Number.epsilon) (Ieee.abs_sub_comm x y))
  all_goals first | rfl | exact hanswer BEq.comm

theorem trichotomy_iff_count (h : Compared a b less equal greater) :
    Trichotomy a b less equal greater ↔ [less, equal, greater].count true = 1 :=
  ⟨Trichotomy.one, fun hone => ⟨hone, (equals_comm b a).trans h.equal, h.swap⟩⟩

theorem epsilon_pos :
    Ieee.lt (Ieee.ofRatio false 0 1) (Number.epsilon : Binary64) = true := by decide +kernel

theorem near_iff (h : ¬ Ieee.Apart x y) :
    Near x y ↔ Number.eq x y = true ∧ Number.isFinite x = true :=
  Ieee.close_iff_of_not_apart h epsilon_pos

theorem toStr_ne_toString (x : Binary64) (b : Bool) : Number.toStr x ≠ toString b := by
  intro h
  have hparse : Number.parse (Number.toStr x) = some x := Ieee.parse_toStr x
  rw [h] at hparse
  cases b with
  | true => exact Option.some_ne_none _ (hparse.symm.trans Ieee.parse_true)
  | false => exact Option.some_ne_none _ (hparse.symm.trans Ieee.parse_false)

theorem toString_ne_of_asNumber {s : String}
    (hs : (.string s : TypedValue Binary64).asNumber = .ok x) (b : Bool) : toString b ≠ s := by
  rintro rfl
  cases b with
  | true =>
    rw [show toString true = "true" from rfl, asNumber, show Number.parse "true" = none from Ieee.parse_true] at hs
    cases hs
  | false =>
    rw [show toString false = "false" from rfl, asNumber, show Number.parse "false" = none from Ieee.parse_false] at hs
    cases hs

/-! ### What the equality says, by the types -/

theorem told_numbers : Told (.number x) (.number y) ↔ (Near x y ↔ ¬ Ieee.Apart x y) := by
  show _ ∧ _ ∨ _ ∧ _ ↔ _
  by_cases hapart : Ieee.Apart x y
  · have heq : Number.eq x y ≠ true := by
      rw [show Number.eq x y = false from hapart.not_eq]
      exact Bool.false_ne_true
    simp [hapart, heq]
  · rw [← near_iff hapart]
    simp [hapart]

/-- Of a number and the text of a number. -/
theorem told_text {s : String} (hs : (.string s : TypedValue Binary64).asNumber = .ok y) :
    Told (.number x) (.string s) ↔ (Number.toStr x = s ↔ ¬ Ieee.Apart x y) := by
  show s = Number.toStr x ∨ _ ↔ _
  rw [apart_iff (rfl : (number x).asNumber = .ok x) hs]
  by_cases htext : s = Number.toStr x
  · have hparse : Number.parse s = some x := by
      rw [htext]
      exact Ieee.parse_toStr x
    rw [asNumber, hparse] at hs
    obtain rfl := Except.ok.inj hs
    have hself : ¬ Ieee.Apart x x := Ieee.not_apart_self x
    simp [htext, hself]
  · have hne : Number.toStr x ≠ s := fun h => htext h.symm
    simp [htext, hne]

/-- The numbers of two booleans. -/
theorem apart_booleans {c d : Bool} (hc : (.boolean c : TypedValue Binary64).asNumber = .ok x)
    (hd : (.boolean d : TypedValue Binary64).asNumber = .ok y) :
    (c == d) = true ↔ ¬ Ieee.Apart x y := by
  have hone : Ieee.Apart (Ieee.ofNat 0 : Binary64) (Ieee.ofNat 1) := by
    refine .inl ?_
    rw [Ieee.zero_lt_ofNat (by decide)]
    rfl
  obtain rfl := Except.ok.inj hc
  obtain rfl := Except.ok.inj hd
  cases c <;> cases d <;> simp only [Bool.false_eq_true, if_false, if_true]
  · exact iff_of_true rfl (Ieee.not_apart_self _)
  · exact iff_of_false Bool.false_ne_true fun h => h hone
  · exact iff_of_false Bool.false_ne_true fun h => h hone.symm
  · exact iff_of_true rfl (Ieee.not_apart_self _)

/-- Two strings are in the order of their characters. -/
theorem count_strings (s t : String) :
    [decide (s < t), s == t, decide (t < s)].count true = 1 := by
  rcases lt_trichotomy s t with h | rfl | h
  · simp [h, h.ne, h.not_gt]
  · simp
  · simp [h, h.ne', h.not_gt]

/-- Exactly one comparison says yes, and says so the other way round, iff the values are told apart
or known to be the same. -/
theorem trichotomy_iff (h : Compared a b less equal greater) :
    Trichotomy a b less equal greater ↔ Told a b := by
  rw [trichotomy_iff_count h]
  by_cases hstring : ∃ s t, a = .string s ∧ b = .string t
  · obtain ⟨s, t, rfl, rfl⟩ := hstring
    obtain ⟨hless, hequal, hgreater⟩ := h
    cases hless
    cases hequal
    cases hgreater
    exact iff_of_true (count_strings s t) trivial
  obtain ⟨x, y, ha, hb, rfl, rfl⟩ := h.numbers fun s t hst => hstring ⟨s, t, hst⟩
  rw [count_iff]
  have hequal := h.equal
  -- values of different types are never equal, and are told apart by their numbers
  have hdiffer (hfalse : a.equals b = .ok (.boolean false)) (htold : Told a b ↔ Apart a b) :
      (equal = true ↔ ¬ Ieee.Apart x y) ↔ Told a b := by
    cases hequal.symm.trans hfalse
    rw [htold, apart_iff ha hb]
    simp
  have hnever {u v : String} (huv : u ≠ v) :
      (Except.ok (.boolean (u == v)) : Except TypedValueError (TypedValue Binary64)) =
        .ok (.boolean false) := by
    rw [beq_eq_false_iff_ne.mpr huv]
  cases a with
  | number x' =>
    cases b with
    | number y' =>
      cases ha
      cases hb
      cases hequal
      exact told_numbers.symm
    | boolean c => exact hdiffer (hnever (toStr_ne_toString x' c)) Iff.rfl
    | string s =>
      cases ha
      cases hequal
      rw [told_text hb, beq_iff_eq]
    | null => exact hdiffer rfl Iff.rfl
  | boolean c =>
    cases b with
    | number y' => exact hdiffer (hnever (toStr_ne_toString y' c).symm) Iff.rfl
    | boolean d =>
      cases hequal
      exact iff_of_true (apart_booleans ha hb) trivial
    | string s => exact hdiffer (hnever (toString_ne_of_asNumber hb c)) Iff.rfl
    | null => exact hdiffer rfl Iff.rfl
  | string s =>
    cases b with
    | number y' =>
      cases hb
      cases hequal
      have hsymm : Ieee.Apart x y ↔ Ieee.Apart y x := ⟨.symm, .symm⟩
      rw [beq_iff_eq, eq_comm, hsymm]
      exact (told_text ha).symm
    | boolean d => exact hdiffer (hnever (toString_ne_of_asNumber ha d).symm) Iff.rfl
    | string t => exact absurd ⟨s, t, rfl, rfl⟩ hstring
    | null => exact hdiffer rfl Iff.rfl
  | null =>
    cases b with
    | number y' => exact hdiffer rfl Iff.rfl
    | boolean d => exact hdiffer rfl Iff.rfl
    | string t => exact hdiffer rfl Iff.rfl
    | null =>
      obtain rfl := Except.ok.inj (ha.symm.trans hb)
      cases hequal
      exact iff_of_true (iff_of_true rfl (Ieee.not_apart_self _)) trivial

theorem trichotomy_iff_strings :
    Trichotomy (.string "abc") (.string "def") true false false ↔
      Told (.string "abc") (.string "def") :=
  trichotomy_iff ⟨by decide, by decide, by decide⟩

/-- One is neither less nor greater than true, nor equal to it. -/
theorem not_trichotomy : ¬ ∀ (a b : TypedValue Binary64) (less equal greater : Bool),
    a ≠ .number .nan → b ≠ .number .nan → Compared a b less equal greater →
      Trichotomy a b less equal greater := by
  intro h
  have hself : Number.lt (Number.ofNat 1 : Binary64) (Number.ofNat 1) = false :=
    Bool.eq_false_iff.mpr fun hlt => Ieee.not_apart_self _ (.inl hlt)
  have htext : (Number.toStr (Number.ofNat 1 : Binary64) == toString true) = false :=
    beq_eq_false_iff_ne.mpr (toStr_ne_toString _ true)
  have hcompared : Compared (.number (Number.ofNat 1)) (.boolean true) false false false :=
    ⟨congrArg (Except.ok ∘ boolean) hself, congrArg (Except.ok ∘ boolean) htext,
      congrArg (Except.ok ∘ boolean) hself⟩
  have hne : (.number (Number.ofNat 1) : TypedValue Binary64) ≠ .number .nan := by
    intro heq
    cases Ieee.ofNat_one.symm.trans (TypedValue.number.inj heq)
  have hboolean : (.boolean true : TypedValue Binary64) ≠ .number .nan := by
    intro heq
    cases heq
  have hone := (h (.number (Number.ofNat 1)) (.boolean true) _ _ _ hne hboolean hcompared).one
  exact absurd hone (by decide)

end TypedValue

end Covm
