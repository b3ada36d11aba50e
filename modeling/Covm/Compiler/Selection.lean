import Covm.Compiler.Stdlib

/-!
# Selecting a value

`max` and `min` of the standard library compare the second argument with itself, so they never
swap: both give the first argument. `abs` is right. `xor` asks whether its arguments differ and one
of them counts as true, so it is wrong for two different values that both do, and for two values
that are equal although only one of them does.
-/

namespace Covm.Compiler

open Partial

theorem not_lt_self (a : Binary64) : Number.lt a a = false := by
  cases a with
  | nan => rfl
  | inf s => cases s <;> rfl
  | fin s k => exact decide_eq_false (lt_irrefl _)

/-! ### What the functions are for -/

/-- One of the two numbers, and neither is larger. -/
def IsMax (a b m : Binary64) : Prop :=
  (m = a ∨ m = b) ∧ Number.lt m a = false ∧ Number.lt m b = false

/-- One of the two numbers, and neither is smaller. -/
def IsMin (a b m : Binary64) : Prop :=
  (m = a ∨ m = b) ∧ Number.lt a m = false ∧ Number.lt b m = false

/-- Equal to the absolute value, unless that is not a number. -/
def IsAbs (a m : Binary64) : Prop :=
  Number.eq a a = true → Number.eq m (Number.abs a) = true

def ofNumber (P : Binary64 → Prop) (v : TypedValue Binary64) : Prop := ∃ m, v = .number m ∧ P m

def Truthy (v : TypedValue Binary64) : Prop := v.isFalsey = false

/-- Truthy iff exactly one of the two values is. -/
def IsXor (x y v : TypedValue Binary64) : Prop := Truthy v ↔ Xor (Truthy x) (Truthy y)

/-- When one of the values counts as true, they are equal iff both do. -/
def TellsApart (x y : TypedValue Binary64) : Prop :=
  Truthy x ∨ Truthy y → (x.equals y = .ok (.boolean true) ↔ Truthy x ∧ Truthy y)

theorem asBoolean_eq (v : TypedValue Binary64) : v.asBoolean = .ok (!v.isFalsey) := by
  cases v <;> simp [TypedValue.asBoolean, TypedValue.isFalsey, Number.ne]

section
variable {S : Type} [StorageBackend S] [SerdeJson] {m : Memory Binary64} {s : VMStack Binary64}

/-- Two arguments and a call. -/
theorem sends_call_two {f : String} {x y r : TypedValue Binary64} {code : List (Op Binary64)}
    (hf : (f, ["a", "b"], code) ∈ stdlibFunctions)
    (hcode : ∀ m₁ : Memory Binary64, m₁.1.load "a" = .ok x → m₁.1.load "b" = .ok y →
      Sem.Sends VM.core (VM.runFlow code : Sem _ (VM Binary64 S) _) (s, m₁) .next (r :: s, m₁)) :
    Sem.Sends VM.core (VM.run [.push x, .push y, .call f] : Sem _ (VM Binary64 S) _)
      (s, withStdlib m) () (r :: r :: s, withStdlib m) := by
  have hcall : Sem.Sends VM.core (VM.limit.next (.call f) : Sem _ (VM Binary64 S) _)
      ([y, x] ++ s, withStdlib m) .next (r :: r :: s, withStdlib m) := by
    refine VM.sends_call (lookup_withStdlib m hf) rfl (hcode _ ?_ ?_)
    · exact VM.load_enter rfl
    · exact VM.load_enter rfl
  refine VM.sends_run ?_
  refine VM.sends_runFlow_cons (VM.sends_of_effect rfl) ?_
  refine VM.sends_runFlow_cons (VM.sends_of_effect rfl) ?_
  exact VM.sends_runFlow_cons hcall Sem.sends_pure

theorem sends_selectCode {comparison : Op Binary64} {a b : Binary64} {m₁ : Memory Binary64}
    (hop : ∀ s, VM.effect m₁.1 comparison (.number b :: .number b :: s) =
      some (.boolean false :: s))
    (ha : m₁.1.load "a" = .ok (.number a)) (hb : m₁.1.load "b" = .ok (.number b)) :
    Sem.Sends VM.core (VM.runFlow (selectCode comparison) : Sem _ (VM Binary64 S) _) (s, m₁) .next
      (.number a :: s, m₁) := by
  have hcompare : VM.effects m₁.1 [.load "a", .load "b", .dup, .overOp, comparison] s =
      some (.boolean false :: .number b :: .number a :: s) := by
    rw [VM.effects_cons, VM.effect_load ha, Option.bind_some, VM.effects_cons, VM.effect_load hb]
    show (VM.effect m₁.1 comparison _).bind _ = _
    rw [hop]
    rfl
  have hpop : VM.effects m₁.1 [.pop] (.number b :: .number a :: s) = some (.number a :: s) := rfl
  have hif : Sem.Sends VM.core
      (VM.limit.next (.ifOp [] [.swap, .pop] (some [.pop])) : Sem _ (VM Binary64 S) _)
      (.boolean false :: .number b :: .number a :: s, m₁) .next (.number a :: s, m₁) :=
    VM.sends_ifOp (VM.sends_run (VM.sends_of_effects hpop))
  exact VM.sends_runFlow_append (VM.sends_of_effects hcompare)
    (VM.sends_runFlow_cons hif Sem.sends_pure)

theorem sends_absCode {a : Binary64} {m₁ : Memory Binary64}
    (ha : m₁.1.load "x" = .ok (.number a)) :
    Sem.Sends VM.core (VM.runFlow absCode : Sem _ (VM Binary64 S) _) (s, m₁) .next
      (.number (if Number.lt a (Number.ofNat 0) then Number.neg a else a) :: s, m₁) := by
  have hcompare : VM.effects m₁.1 [.load "x", .dup, .push (literal 0), .lt] s =
      some (.boolean (Number.lt a (Number.ofNat 0)) :: .number a :: s) := by
    rw [VM.effects_cons, VM.effect_load ha]
    rfl
  have hif : Sem.Sends VM.core (VM.limit.next (.ifOp [] [.negate] none) : Sem _ (VM Binary64 S) _)
      (.boolean (Number.lt a (Number.ofNat 0)) :: .number a :: s, m₁) .next
      (.number (if Number.lt a (Number.ofNat 0) then Number.neg a else a) :: s, m₁) := by
    refine VM.sends_ifOp ?_
    cases Number.lt a (Number.ofNat 0) with
    | true =>
      have hneg : VM.effects m₁.1 [.negate] (.number a :: s) = some (.number (Number.neg a) :: s) :=
        rfl
      exact VM.sends_run (VM.sends_of_effects hneg)
    | false => exact Sem.sends_pure
  exact VM.sends_runFlow_append (VM.sends_of_effects hcompare)
    (VM.sends_runFlow_cons hif Sem.sends_pure)

theorem sends_xorCode {x y : TypedValue Binary64} {equal : Bool} {m₁ : Memory Binary64}
    (hequal : x.equals y = .ok (.boolean equal)) (hx : m₁.1.load "a" = .ok x)
    (hy : m₁.1.load "b" = .ok y) :
    Sem.Sends VM.core (VM.runFlow xorCode : Sem _ (VM Binary64 S) _) (s, m₁) .next
      (.boolean (!equal && (!x.isFalsey || !y.isFalsey)) :: s, m₁) := by
  have heq : ∀ s, VM.effect m₁.1 .eq (y :: x :: s) = some (.boolean equal :: s) := by
    intro s
    simp [VM.effect, VM.binaryEffect, executeComparison, hequal, Except.mapError, Except.toOption]
  have hor : ∀ s, VM.effect m₁.1 .or (y :: x :: s) =
      some (.boolean (!x.isFalsey || !y.isFalsey) :: s) := by
    intro s
    simp only [VM.effect, VM.binaryEffect, executeBinaryLogical, TypedValue.logicalOr, asBoolean_eq]
    rfl
  refine VM.sends_of_effects ?_
  rw [xorCode, VM.effects_cons, VM.effect_load hx, Option.bind_some, VM.effects_cons,
    VM.effect_load hy, Option.bind_some, VM.effects_cons, heq]
  show VM.effects m₁.1 [.load "a", .load "b", .or, .and] (.boolean (!equal) :: s) = _
  rw [VM.effects_cons, VM.effect_load hx, Option.bind_some, VM.effects_cons,
    VM.effect_load hy, Option.bind_some, VM.effects_cons, hor]
  rfl

/-! ### What they leave -/

variable {vm : VM Binary64 S} {P : TypedValue Binary64 → Prop}

theorem leaves_max {a b : Binary64} :
    Leaves [.push (.number a), .push (.number b), .call "max"] vm P ↔ P (.number a) := by
  refine leaves_iff_of_sends (sends_call_two (List.mem_of_getElem? (i := 1) rfl) ?_)
  intro m₁ ha hb
  refine sends_selectCode (fun s => ?_) ha hb
  rw [← not_lt_self b]
  rfl

theorem leaves_min {a b : Binary64} :
    Leaves [.push (.number a), .push (.number b), .call "min"] vm P ↔ P (.number a) := by
  refine leaves_iff_of_sends (sends_call_two (List.mem_of_getElem? (i := 2) rfl) ?_)
  intro m₁ ha hb
  refine sends_selectCode (fun s => ?_) ha hb
  rw [← not_lt_self b]
  rfl

theorem leaves_abs {a : Binary64} : Leaves [.push (.number a), .call "abs"] vm P ↔
    P (.number (if Number.lt a (Number.ofNat 0) then Number.neg a else a)) := by
  have hcall : Sem.Sends VM.core (VM.limit.next (.call "abs") : Sem _ (VM Binary64 S) _)
      ([TypedValue.number a] ++ vm.stack, withStdlib vm.memory) .next (_ :: _ :: vm.stack, _) :=
    VM.sends_call (lookup_withStdlib _ (List.mem_of_getElem? (i := 0) rfl)) rfl
      (sends_absCode (VM.load_enter rfl))
  exact leaves_iff_of_sends (VM.sends_run (VM.sends_runFlow_cons (VM.sends_of_effect rfl)
    (VM.sends_runFlow_cons hcall Sem.sends_pure)))

theorem leaves_xor {x y : TypedValue Binary64} {equal : Bool}
    (hequal : x.equals y = .ok (.boolean equal)) :
    Leaves [.push x, .push y, .call "xor"] vm P ↔
      P (.boolean (!equal && (!x.isFalsey || !y.isFalsey))) :=
  leaves_iff_of_sends (sends_call_two (List.mem_of_getElem? (i := 6) rfl) fun _ hx hy =>
    sends_xorCode hequal hx hy)

end

/-! ### When that is right -/

theorem isMax_left {a b : Binary64} : IsMax a b a ↔ Number.lt a b = false :=
  ⟨fun h => h.2.2, fun h => ⟨.inl rfl, not_lt_self a, h⟩⟩

theorem isMin_left {a b : Binary64} : IsMin a b a ↔ Number.lt b a = false :=
  ⟨fun h => h.2.2, fun h => ⟨.inl rfl, not_lt_self a, h⟩⟩

theorem ofNumber_number {P : Binary64 → Prop} {m : Binary64} :
    ofNumber P (.number m) ↔ P m := by
  constructor
  · rintro ⟨m', heq, hm'⟩
    cases heq
    exact hm'
  · exact fun hm => ⟨m, rfl, hm⟩

theorem isAbs_of_lt (a : Binary64) :
    IsAbs a (if Number.lt a (Number.ofNat 0) then Number.neg a else a) := by
  intro ha
  obtain ⟨h, hzero⟩ : ∃ h,
      (Number.ofNat 0 : Binary64) = .fin false ⟨0 * Ieee.scale .binary64, h⟩ :=
    ⟨_, Ieee.ofNat_of_lt (by decide)⟩
  rw [hzero]
  cases a with
  | nan => cases ha
  | inf s => cases s <;> rfl
  | fin s k =>
    have heq : Ieee.toInt false k = Ieee.toInt false k := rfl
    have hlt (s : Bool) :
        Number.lt (.fin s k : Binary64) (.fin false ⟨0 * Ieee.scale .binary64, h⟩) =
          decide (Ieee.toInt s k < 0) := by
      have hvalue : Ieee.toInt false ⟨0 * Ieee.scale .binary64, h⟩ = 0 := by simp [Ieee.toInt]
      rw [← hvalue]
      rfl
    rw [hlt]
    cases s with
    | false =>
      have hpos : ¬ Ieee.toInt false k < 0 := by simp [Ieee.toInt]
      rw [decide_eq_false hpos]
      exact decide_eq_true heq
    | true =>
      by_cases hneg : Ieee.toInt true k < 0
      · rw [decide_eq_true hneg]
        exact decide_eq_true heq
      · -- the two zeros are equal
        rw [decide_eq_false hneg]
        refine decide_eq_true ?_
        simp only [Ieee.toInt, if_true, Bool.false_eq_true, if_false] at hneg ⊢
        omega

theorem isXor_iff {x y : TypedValue Binary64} {equal : Bool}
    (hequal : x.equals y = .ok (.boolean equal)) :
    IsXor x y (.boolean (!equal && (!x.isFalsey || !y.isFalsey))) ↔ TellsApart x y := by
  unfold IsXor TellsApart Truthy
  rw [hequal]
  cases x.isFalsey <;> cases y.isFalsey <;> cases equal <;> simp [TypedValue.isFalsey, Xor]

theorem stdlib_selects {S : Type} [StorageBackend S] [SerdeJson] (vm : VM Binary64 S)
    (a b : Binary64) (x y : TypedValue Binary64) :
    (Leaves [.push (.number a), .push (.number b), .call "max"] vm (ofNumber (IsMax a b)) ↔
        Number.lt a b = false) ∧
      (Leaves [.push (.number a), .push (.number b), .call "min"] vm (ofNumber (IsMin a b)) ↔
        Number.lt b a = false) ∧
      Leaves [.push (.number a), .call "abs"] vm (ofNumber (IsAbs a)) ∧
      (Leaves [.push x, .push y, .call "xor"] vm (IsXor x y) ↔ TellsApart x y) := by
  obtain ⟨equal, hequal⟩ := x.equals_ok y
  refine ⟨?_, ?_, ?_, ?_⟩
  · rw [leaves_max, ofNumber_number, isMax_left]
  · rw [leaves_min, ofNumber_number, isMin_left]
  · rw [leaves_abs, ofNumber_number]
    exact isAbs_of_lt a
  · rw [leaves_xor hequal, isXor_iff hequal]

/-- The larger of one and two is one, and two different true values are not told apart. -/
theorem not_stdlib_selects :
    ¬ Leaves [.push (literal 1), .push (literal 2), .call "max"] (VM.stackVm [])
        (ofNumber (IsMax (Number.ofNat 1) (Number.ofNat 2))) ∧
      ¬ Leaves [.push (literal 2), .push (literal 1), .call "min"] (VM.stackVm [])
        (ofNumber (IsMin (Number.ofNat 2) (Number.ofNat 1))) ∧
      ¬ Leaves [.push (literal 1), .push (literal 2), .call "xor"] (VM.stackVm [])
        (IsXor (literal 1) (literal 2)) := by
  have hlt : Number.lt (Number.ofNat 1) (Number.ofNat 2 : Binary64) = true :=
    Ieee.lt_ofNat (by decide) (by decide)
  refine ⟨?_, ?_, ?_⟩
  · rw [literal, literal, leaves_max, ofNumber_number, isMax_left, hlt]
    exact Bool.true_eq_false_eq_False
  · rw [literal, literal, leaves_min, ofNumber_number, isMin_left, hlt]
    exact Bool.true_eq_false_eq_False
  · have hequal : (literal 1).equals (literal 2) = .ok (.boolean false) := by decide +kernel
    have hone : Number.eq (Number.ofNat 1 : Binary64) (Number.ofNat 0) = false :=
      Ieee.eq_ofNat (by decide) (by decide)
    have htwo : Number.eq (Number.ofNat 2 : Binary64) (Number.ofNat 0) = false :=
      Ieee.eq_ofNat (by decide) (by decide)
    rw [leaves_xor hequal, isXor_iff hequal, TellsApart, hequal]
    intro h
    cases (h (.inl hone)).mpr ⟨hone, htwo⟩

end Covm.Compiler
