import Covm.Compiler.Selection
import Covm.Number.Doubling

/-!
# Summing up to a number

A round of the loop of `sum_n` makes of an accumulator `a` and a counter `c` the accumulator `2 * c`
and the counter `a + 1`: what the body adds is the counter to itself. So the result is twice a
number of at most `n`, if any round is made, which is the sum for `0` and for `3` only.
-/

namespace Covm.Compiler

open Partial

/-- The accumulator and the counter. -/
abbrev SumState : Type := Binary64 × Binary64

namespace SumState

def start : SumState := (Number.ofNat 0, Number.ofNat 1)

/-- The condition of the loop. -/
def holds (limit : Binary64) (x : SumState) : Bool := !Number.gt x.2 limit

def next (x : SumState) : SumState := (Number.add x.2 x.2, Number.add x.1 (Number.ofNat 1))

def cells (x : SumState) (s : VMStack Binary64) : VMStack Binary64 :=
  .number x.2 :: .number x.1 :: s

theorem start_cells (s : VMStack Binary64) : start.cells s = literal 1 :: literal 0 :: s := rfl

theorem holds_eq_true {limit : Binary64} {x : SumState} :
    holds limit x = true ↔ Number.lt limit x.2 = false := by
  rw [holds, Number.gt, Bool.not_eq_true']

theorem holds_eq_false {limit : Binary64} {x : SumState} :
    holds limit x = false ↔ Number.lt limit x.2 = true := by
  rw [holds, Number.gt, Bool.not_eq_false']

end SumState

open SumState

section
variable {S : Type} [StorageBackend S] [SerdeJson] {m : Memory Binary64} {s : VMStack Binary64}
  {limit : Binary64}

theorem sends_sumCondition (hn : m.1.load "n" = .ok (.number limit)) (x : SumState) :
    Sem.Sends VM.core (VM.limit.test sumCondition : Sem _ (VM Binary64 S) _) (x.cells s, m)
      (holds limit x) (x.cells s, m) := by
  have heffects : VM.effects m.1 sumCondition (x.cells s) =
      some (.boolean (holds limit x) :: x.cells s) := by
    show VM.effects m.1 [.load "n", .gt, .not] (.number x.2 :: x.cells s) = _
    rw [VM.effects_cons, VM.effect_load hn]
    rfl
  have htest := VM.sends_test (VM.sends_run (VM.sends_of_effects (S := S) heffects))
  rwa [TypedValue.isFalsey, Bool.not_not] at htest

theorem sends_sumBody (x : SumState) :
    Sem.Sends VM.core (VM.run sumBody : Sem _ (VM Binary64 S) _) (x.cells s, m) ()
      (x.next.cells s, m) := by
  have heffects : VM.effects m.1 sumBody (x.cells s) = some (x.next.cells s) := rfl
  exact VM.sends_run (VM.sends_of_effects heffects)

theorem sends_sumCode (hn : m.1.load "n" = .ok (.number limit)) {x : SumState}
    (hx : Sem.StopsAt (holds limit) next start x) :
    Sem.Sends VM.core (VM.runFlow sumCode : Sem _ (VM Binary64 S) _) (s, m) .next
      (.number x.1 :: s, m) := by
  have hloop : Sem.Sends VM.core
      (VM.limit.next (.whileOp sumCondition sumBody) : Sem _ (VM Binary64 S) _)
      (start.cells s, m) .next (x.cells s, m) := by
    have hrounds : Sem.Sends VM.core (Sem.whileDo (VM.limit.test sumCondition) (VM.run sumBody) :
        Sem _ (VM Binary64 S) _) (start.cells s, m) () (x.cells s, m) :=
      Sem.sends_whileDo (v := fun x => (x.cells s, m)) (sends_sumCondition hn)
        (fun x _ => sends_sumBody x) hx
    exact VM.sends_next rfl (hrounds.bind Sem.sends_pure)
  have hstart : VM.effects m.1 [.push (literal 0), .push (literal 1)] s =
      some (start.cells s) := rfl
  have hpop : VM.effects m.1 [.pop] (x.cells s) = some (.number x.1 :: s) := rfl
  exact VM.sends_runFlow_append (VM.sends_of_effects hstart)
    (VM.sends_runFlow_cons hloop (VM.sends_of_effects hpop))

/-! ### Every end of the loop -/

/-- A list with an outcome has come to what its first operation does. -/
theorem exists_flow {op : Op Binary64} {ops : List (Op Binary64)} {vm : VM Binary64 S}
    {r : Outcome (Fault Binary64) (VM Binary64 S) Unit} (hop : VM.isSimulated op = false)
    (h : VM.run (op :: ops) vm r) :
    ∃ (vm₁ : VM Binary64 S) (r' : Outcome (Fault Binary64) (VM Binary64 S) Flow),
      vm₁.core = vm.core ∧ VM.limit.flow op vm₁ r' := by
  rw [VM.run_cons] at h
  obtain ⟨r₁, hnext⟩ := Sem.exists_of_bind h
  obtain ⟨vm₁, hannounce, hcore⟩ := VM.announce_ok hop vm
  have hflow := (congrFun (ends_bind_of_ok hannounce _) r₁).mp hnext
  rw [if_neg Bool.false_ne_true] at hflow
  obtain ⟨r', hflow⟩ := Sem.exists_of_bind hflow
  exact ⟨vm₁, r', hcore, hflow⟩

/-- An operation that is sent somewhere is followed by the others. -/
theorem exists_run {op : Op Binary64} {ops : List (Op Binary64)} {vm : VM Binary64 S}
    {c : VMStack Binary64 × Memory Binary64} {r : Outcome (Fault Binary64) (VM Binary64 S) Unit}
    (hop : Sem.Sends VM.core (VM.limit.next op : Sem _ (VM Binary64 S) _) vm.core .next c)
    (h : VM.run (op :: ops) vm r) : ∃ vm₁, vm₁.core = c ∧ VM.run ops vm₁ r := by
  rw [VM.run_cons] at h
  exact hop.of_bind (VM.next_tends op).functional rfl h

theorem exists_stopsAt {vm : VM Binary64 S} {r : Outcome (Fault Binary64) (VM Binary64 S) Unit}
    (hvm : vm.core = (s, withStdlib m)) (h : VM.run [.push (.number limit), .call "sum_n"] vm r) :
    ∃ x, Sem.StopsAt (holds limit) next start x := by
  have hmem : ("sum_n", ["n"], sumCode) ∈ stdlibFunctions := List.mem_of_getElem? (i := 5) rfl
  have henter : Sem.Sends VM.core (ends (VM.enterCall "sum_n") : Sem _ (VM Binary64 S) _)
      ([TypedValue.number limit] ++ s, withStdlib m)
      [.push (literal 0), .push (literal 1), .whileOp sumCondition sumBody, .pop, .returnOp]
      (s, _) :=
    VM.sends_enterCall (lookup_withStdlib m hmem) rfl
  -- the argument is pushed, the call is entered, and the accumulator and the counter are there
  obtain ⟨vm₁, hvm₁, h⟩ := exists_run (by rw [hvm]; exact VM.sends_of_effect rfl) h
  obtain ⟨vm₂, _, hvm₂, h⟩ := exists_flow rfl h
  obtain ⟨vm₃, hvm₃, h⟩ := henter.of_bind (ends_functional _) (hvm₂.trans hvm₁) h
  obtain ⟨_, h⟩ := Sem.exists_of_bind h
  obtain ⟨vm₄, hvm₄, h⟩ := exists_run (by rw [hvm₃]; exact VM.sends_of_effect rfl) h
  obtain ⟨vm₅, hvm₅, h⟩ := exists_run (by rw [hvm₄]; exact VM.sends_of_effect rfl) h
  obtain ⟨vm₆, _, hvm₆, h⟩ := exists_flow rfl h
  obtain ⟨_, h⟩ := Sem.exists_of_bind h
  rw [← start_cells] at hvm₅
  obtain ⟨x, _, hx, -⟩ := Sem.exists_of_whileDo (v := fun x => (x.cells s, _))
    (sends_sumCondition (VM.load_enter rfl)) (fun x _ => sends_sumBody x)
    (VM.test_tends sumCondition).functional (VM.run_functional sumBody) h (hvm₆.trans hvm₅)
  exact ⟨x, hx⟩

theorem leaves_sumN {vm : VM Binary64 S} {P : TypedValue Binary64 → Prop} :
    Leaves [.push (.number limit), .call "sum_n"] vm P ↔
      ∃ x, Sem.StopsAt (holds limit) next start x ∧ P (.number x.1) := by
  have hsends {x : SumState} (hx : Sem.StopsAt (holds limit) next start x) :
      Leaves [.push (.number limit), .call "sum_n"] vm P ↔ P (.number x.1) := by
    have hcall : Sem.Sends VM.core (VM.limit.next (.call "sum_n") : Sem _ (VM Binary64 S) _)
        ([TypedValue.number limit] ++ vm.stack, withStdlib vm.memory) .next (_ :: _ :: vm.stack, _) :=
      VM.sends_call (lookup_withStdlib _ (List.mem_of_getElem? (i := 5) rfl)) rfl
        (sends_sumCode (VM.load_enter rfl) hx)
    exact leaves_iff_of_sends (VM.sends_run (VM.sends_runFlow_cons (VM.sends_of_effect rfl)
      (VM.sends_runFlow_cons hcall Sem.sends_pure)))
  constructor
  · intro h
    obtain ⟨vm₁, vm₂, v, hvm₁, -, hrun, -⟩ := leaves_iff.mp h
    obtain ⟨x, hx⟩ := exists_stopsAt hvm₁ hrun
    exact ⟨x, hx, (hsends hx).mp h⟩
  · rintro ⟨x, hx, hP⟩
    exact (hsends hx).mpr hP

end

/-! ### The result -/

/-- What is left after a round is at most twice the limit. -/
theorem exists_limit {n : Nat} {x : SumState} {q : ℚ}
    (hx : Sem.StopsAt (holds (Number.ofNat n)) next start x) (hq : x.1.toRat? = some q) :
    x = start ∨ ∃ l : ℚ, (Number.ofNat n : Binary64).toRat? = some l ∧ l ≤ 2 * n ∧ q ≤ 2 * l := by
  rcases hx.last with rfl | ⟨y, hy, rfl⟩
  · exact .inl rfl
  · obtain ⟨l, hl, hle⟩ := Ieee.toRat?_ofNat (holds_eq_false.mp hx.2)
    obtain ⟨p, hp, rfl⟩ := Ieee.toRat?_add_self hq
    have hcounter : p ≤ l := Ieee.le_of_not_lt hl hp (holds_eq_true.mp hy)
    exact .inr ⟨l, hl, hle, by linarith⟩

theorem le_three_of_sum {n : Nat} {x : SumState}
    (hx : Sem.StopsAt (holds (Number.ofNat n)) next start x)
    (hsum : x.1.toRat? = some (n * (n + 1) / 2 : ℚ)) : n ≤ 3 := by
  by_contra hn
  have hn' : (4 : ℚ) ≤ n := by exact_mod_cast not_le.mp hn
  rcases exists_limit hx hsum with rfl | ⟨l, hl, hle, hsum⟩
  · have hstart : start.1.toRat? = some ((0 : Nat) : ℚ) := Ieee.toRat?_ofNat_of_lt (by decide)
    have hzero := Option.some.inj (hstart.symm.trans hsum)
    push_cast at hzero
    nlinarith
  · by_cases hsmall : n < 2 ^ 53
    · have hexact : (Number.ofNat n : Binary64).toRat? = some (n : ℚ) :=
        Ieee.toRat?_ofNat_of_lt hsmall
      obtain rfl := Option.some.inj (hl.symm.trans hexact)
      nlinarith
    · have hlarge : (2 ^ 53 : ℚ) ≤ n := by exact_mod_cast not_lt.mp hsmall
      nlinarith

/-- The loop ends with the accumulator `k`. -/
def EndsWith (n k : Nat) : Prop :=
  ∃ x : SumState, Sem.StopsAt (holds (Number.ofNat n)) next start x ∧ x.1 = Number.ofNat k

/-- Numbers with the rounds that are made for them and the accumulator after these. -/
def smallSums : List (Nat × Nat × Nat) := [(0, 0, 0), (1, 2, 2), (2, 2, 2), (3, 4, 6)]

theorem endsWith_of_mem {n rounds k : Nat} (h : (n, rounds, k) ∈ smallSums) : EndsWith n k := by
  have hsmall : ∀ p ∈ smallSums,
      (∀ i < p.2.1, holds (Number.ofNat p.1) (next^[i] start) = true) ∧
        holds (Number.ofNat p.1) (next^[p.2.1] start) = false ∧
        (next^[p.2.1] start).1 = Number.ofNat p.2.2 := by decide +kernel
  obtain ⟨hgo, hstop, hk⟩ := hsmall _ h
  exact ⟨next^[rounds] start, Sem.stopsAt_iterate hgo hstop, hk⟩

theorem endsWith_zero : EndsWith 0 0 :=
  @endsWith_of_mem 0 0 0 (by decide)

theorem endsWith_two {n : Nat} (hn : n = 1 ∨ n = 2) : EndsWith n 2 := by
  rcases hn with rfl | rfl
  · exact @endsWith_of_mem 1 2 2 (by decide)
  · exact @endsWith_of_mem 2 2 2 (by decide)

theorem endsWith_six : EndsWith 3 6 :=
  @endsWith_of_mem 3 4 6 (by decide)

theorem EndsWith.sum_iff {n k : Nat} (h : EndsWith n k) (hk : k < 2 ^ 53) :
    (∃ x : SumState, Sem.StopsAt (holds (Number.ofNat n)) next start x ∧
      x.1.toRat? = some (n * (n + 1) / 2 : ℚ)) ↔ n * (n + 1) = 2 * k := by
  obtain ⟨y, hy, hyk⟩ := h
  have hexact : y.1.toRat? = some (k : ℚ) := hyk ▸ Ieee.toRat?_ofNat_of_lt hk
  have hiff : (k : ℚ) = n * (n + 1) / 2 ↔ n * (n + 1) = 2 * k := by
    rw [eq_div_iff two_ne_zero, eq_comm, mul_comm (k : ℚ)]
    norm_cast
  rw [← hiff]
  constructor
  · rintro ⟨x, hx, hsum⟩
    rw [hx.unique hy, hexact] at hsum
    exact Option.some.inj hsum
  · exact fun heq => ⟨y, hy, hexact.trans (congrArg some heq)⟩

/-- The function ends, and with the sum, exactly if the loop does. -/
theorem leaves_sum {S : Type} [StorageBackend S] [SerdeJson] {vm : VM Binary64 S} {n : Nat} :
    Leaves [.push (literal n), .call "sum_n"] vm
        (ofNumber fun x => x.toRat? = some (n * (n + 1) / 2 : ℚ)) ↔
      ∃ x : SumState, Sem.StopsAt (holds (Number.ofNat n)) next start x ∧
        x.1.toRat? = some (n * (n + 1) / 2 : ℚ) := by
  rw [literal, leaves_sumN]
  simp only [ofNumber_number]

theorem sumN_sums {S : Type} [StorageBackend S] [SerdeJson] (vm : VM Binary64 S) (n : Nat) :
    Leaves [.push (literal n), .call "sum_n"] vm
        (ofNumber fun x => x.toRat? = some (n * (n + 1) / 2 : ℚ)) ↔ n = 0 ∨ n = 3 := by
  rw [leaves_sum]
  constructor
  · intro h
    obtain ⟨x, hx, hsum⟩ := h
    have hn := le_three_of_sum hx hsum
    obtain rfl | rfl | rfl | rfl : n = 0 ∨ n = 1 ∨ n = 2 ∨ n = 3 := by omega
    · exact .inl rfl
    · cases ((endsWith_two (.inl rfl)).sum_iff (by decide)).mp ⟨x, hx, hsum⟩
    · cases ((endsWith_two (.inr rfl)).sum_iff (by decide)).mp ⟨x, hx, hsum⟩
    · exact .inr rfl
  · rintro (rfl | rfl)
    · exact (endsWith_zero.sum_iff (by decide)).mpr rfl
    · exact (endsWith_six.sum_iff (by decide)).mpr rfl

/-- One and two are three, and `sum_n` leaves two. -/
theorem not_leaves_sum_two : ¬ Leaves [.push (literal 2), .call "sum_n"] (VM.stackVm [])
    (ofNumber fun x => x.toRat? = some (((2 : Nat) : ℚ) * (((2 : Nat) : ℚ) + 1) / 2 : ℚ)) := by
  rw [leaves_sum, (endsWith_two (.inr rfl)).sum_iff (by decide)]
  decide

end Covm.Compiler
