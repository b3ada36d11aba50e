import Mathlib.Logic.Relation
import Mathlib.Tactic.Common

/-!
# Recursion by questions

A recursive function that may fail is given by what it does with one question: it answers, it
fails, or it asks a further question and goes on with the answer (`Rec`). A `Recursion` asks smaller
questions only, as far as can be told from what is known of the answers (`Fits`). Then there is one
function that answers every question as described (`solve_eq`).

An evaluation fails with an error iff it reaches a question that fails with it by itself
(`solve_eq_error_iff`). Evaluations are compared by `Rec.Follows`, step by step.
-/

namespace Covm.Partial

inductive Rec (Q : Type) (R : Q → Type) (ε α : Type) where
  | pure (a : α)
  | throw (e : ε)
  | ask (q : Q) (next : R q → Rec Q R ε α)

namespace Rec

variable {Q : Type} {R : Q → Type} {ε α β γ : Type}

def bind : Rec Q R ε α → (α → Rec Q R ε β) → Rec Q R ε β
  | .pure a, f => f a
  | .throw e, _ => .throw e
  | .ask q next, f => .ask q fun r => (next r).bind f

instance : Monad (Rec Q R ε) where
  pure := Rec.pure
  bind := Rec.bind

/-- The answer to a question. -/
def answer (q : Q) : Rec Q R ε (R q) := .ask q .pure

def ofExcept : Except ε α → Rec Q R ε α
  | .ok a => .pure a
  | .error e => .throw e

/-! ### Evaluation -/

def eval (solve : (q : Q) → Except ε (R q)) : Rec Q R ε α → Except ε α
  | .pure a => .ok a
  | .throw e => .error e
  | .ask q next =>
    match solve q with
    | .ok r => (next r).eval solve
    | .error e => .error e

variable {solve : (q : Q) → Except ε (R q)}

@[simp] theorem eval_pure (a : α) : (Pure.pure a : Rec Q R ε α).eval solve = .ok a := rfl

@[simp] theorem eval_throw (e : ε) : (Rec.throw e : Rec Q R ε α).eval solve = .error e := rfl

@[simp] theorem eval_answer (q : Q) : (answer q : Rec Q R ε (R q)).eval solve = solve q := by
  simp only [answer, eval]
  cases solve q <;> rfl

@[simp] theorem eval_ofExcept (x : Except ε α) :
    (ofExcept x : Rec Q R ε α).eval solve = x := by
  cases x <;> rfl

@[simp] theorem eval_bind (x : Rec Q R ε α) (f : α → Rec Q R ε β) :
    (x >>= f).eval solve = x.eval solve >>= fun a => (f a).eval solve := by
  induction x with
  | pure a => rfl
  | throw e => rfl
  | ask q next ih =>
    show (Rec.ask q fun r => (next r).bind f).eval solve = _
    simp only [eval]
    cases solve q with
    | ok r => exact ih r
    | error e => rfl

/-! ### Bounds on the questions -/

/-- All questions asked meet `P`, and the result meets `T`, if the answers fit. -/
def Bounded (P : Q → Prop) (Fits : (q : Q) → R q → Prop) (T : α → Prop) : Rec Q R ε α → Prop
  | .pure a => T a
  | .throw _ => True
  | .ask q next => P q ∧ ∀ r, Fits q r → (next r).Bounded P Fits T

section
variable {P : Q → Prop} {Fits : (q : Q) → R q → Prop} {S : α → Prop} {T : β → Prop}

theorem bounded_true (Fits : (q : Q) → R q → Prop) (x : Rec Q R ε α) :
    x.Bounded (fun _ => True) Fits fun _ => True := by
  induction x with
  | pure a => trivial
  | throw e => trivial
  | ask q next ih => exact ⟨trivial, fun r _ => ih r⟩

theorem bounded_ofExcept {x : Except ε α} (h : ∀ a, x = .ok a → S a) :
    (ofExcept x : Rec Q R ε α).Bounded P Fits S := by
  cases x with
  | ok a => exact h a rfl
  | error e => trivial

theorem Bounded.bind {x : Rec Q R ε α} {f : α → Rec Q R ε β} (hx : x.Bounded P Fits S)
    (hf : ∀ a, S a → (f a).Bounded P Fits T) : (x >>= f).Bounded P Fits T := by
  induction x with
  | pure a => exact hf a hx
  | throw e => trivial
  | ask q next ih => exact ⟨hx.1, fun r hr => ih r (hx.2 r hr)⟩

theorem Bounded.ite {p : Prop} [Decidable p] {x y : Rec Q R ε α} (hx : p → x.Bounded P Fits S)
    (hy : ¬ p → y.Bounded P Fits S) : (if p then x else y).Bounded P Fits S := by
  split_ifs with h
  · exact hx h
  · exact hy h

theorem Bounded.mono {P' : Q → Prop} {S' : α → Prop} {x : Rec Q R ε α} (hx : x.Bounded P Fits S)
    (hP : ∀ q, P q → P' q) (h : ∀ a, S a → S' a) : x.Bounded P' Fits S' := by
  induction x with
  | pure a => exact h a hx
  | throw e => trivial
  | ask q next ih => exact ⟨hP q hx.1, fun r hr => ih r (hx.2 r hr)⟩

theorem Bounded.eval {x : Rec Q R ε α} (hx : x.Bounded P Fits S)
    (hsolve : ∀ q r, P q → solve q = .ok r → Fits q r) {a : α} (h : x.eval solve = .ok a) :
    S a := by
  induction x with
  | pure b => exact Except.ok.inj h ▸ hx
  | throw e => simp [Rec.eval] at h
  | ask q next ih =>
    simp only [Rec.eval] at h
    cases hq : solve q with
    | ok r =>
      rw [hq] at h
      exact ih r (hx.2 r (hsolve q r hx.1 hq)) h
    | error e => simp [hq] at h

/-- Functions that agree on the questions asked lead to the same result. -/
theorem Bounded.eval_congr {solve' : (q : Q) → Except ε (R q)} {x : Rec Q R ε α}
    (hx : x.Bounded P Fits S) (hsolve : ∀ q r, P q → solve q = .ok r → Fits q r)
    (h : ∀ q, P q → solve q = solve' q) : x.eval solve = x.eval solve' := by
  induction x with
  | pure a => rfl
  | throw e => rfl
  | ask q next ih =>
    simp only [Rec.eval, ← h q hx.1]
    cases hq : solve q with
    | ok r => exact ih r (hx.2 r (hsolve q r hx.1 hq))
    | error e => rfl

end

/-! ### Which questions are asked -/

/-- A question asked when evaluating. -/
def Asked (solve : (q : Q) → Except ε (R q)) : Rec Q R ε α → Q → Prop
  | .pure _, _ => False
  | .throw _, _ => False
  | .ask q next, q' => q' = q ∨ ∃ r, solve q = .ok r ∧ (next r).Asked solve q'

/-- The evaluation fails, and not at a question. -/
def Throws (solve : (q : Q) → Except ε (R q)) (e : ε) : Rec Q R ε α → Prop
  | .pure _ => False
  | .throw e' => e' = e
  | .ask q next => ∃ r, solve q = .ok r ∧ (next r).Throws solve e

theorem eval_eq_error_iff {x : Rec Q R ε α} {e : ε} : x.eval solve = .error e ↔
    x.Throws solve e ∨ ∃ q, x.Asked solve q ∧ solve q = .error e := by
  induction x with
  | pure a => simp [Rec.eval, Throws, Asked]
  | throw e' => simp [Rec.eval, Throws, Asked]
  | ask q next ih =>
    simp only [Rec.eval, Throws, Asked]
    cases hq : solve q with
    | ok r =>
      dsimp only
      rw [ih r]
      constructor
      · rintro (hthrows | ⟨q', hasked, hq'⟩)
        · exact .inl ⟨r, rfl, hthrows⟩
        · exact .inr ⟨q', .inr ⟨r, rfl, hasked⟩, hq'⟩
      · rintro (⟨r', hr', hthrows⟩ | ⟨q', rfl | ⟨r', hr', hasked⟩, hq'⟩)
        · exact .inl (Except.ok.inj hr' ▸ hthrows)
        · simp [hq] at hq'
        · exact .inr ⟨q', Except.ok.inj hr' ▸ hasked, hq'⟩
    | error e' =>
      dsimp only
      constructor
      · intro h
        exact .inr ⟨q, .inl rfl, hq.trans (congrArg Except.error (Except.error.inj h))⟩
      · rintro (⟨r', hr', -⟩ | ⟨q', rfl | ⟨r', hr', -⟩, hq'⟩)
        · simp at hr'
        · exact congrArg Except.error (Except.error.inj (hq.symm.trans hq'))
        · simp at hr'

section
variable {e : ε}

@[simp] theorem asked_pure (a : α) (q : Q) :
    ¬ (Pure.pure a : Rec Q R ε α).Asked solve q := id

@[simp] theorem asked_answer (q q' : Q) :
    (answer q : Rec Q R ε (R q)).Asked solve q' ↔ q' = q := by
  simp [answer, Asked]

@[simp] theorem asked_ofExcept (x : Except ε α) (q : Q) :
    ¬ (ofExcept x : Rec Q R ε α).Asked solve q := by
  cases x <;> exact id

@[simp] theorem asked_bind (x : Rec Q R ε α) (f : α → Rec Q R ε β) (q : Q) :
    (x >>= f).Asked solve q ↔
      x.Asked solve q ∨ ∃ a, x.eval solve = .ok a ∧ (f a).Asked solve q := by
  induction x with
  | pure a => simp [Bind.bind, Rec.bind, Asked, Rec.eval]
  | throw e' => simp [Bind.bind, Rec.bind, Asked, Rec.eval]
  | ask q' next ih =>
    show (q = q' ∨ ∃ r, solve q' = .ok r ∧ (next r >>= f).Asked solve q) ↔
      (q = q' ∨ ∃ r, solve q' = .ok r ∧ (next r).Asked solve q) ∨
        ∃ a, (Rec.ask q' next).eval solve = .ok a ∧ (f a).Asked solve q
    simp only [ih, Rec.eval]
    cases solve q' with
    | ok r => simp [or_assoc]
    | error e' => simp

@[simp] theorem throws_pure (a : α) : ¬ (Pure.pure a : Rec Q R ε α).Throws solve e := id

@[simp] theorem throws_throw (e' : ε) :
    (Rec.throw e' : Rec Q R ε α).Throws solve e ↔ e' = e := Iff.rfl

@[simp] theorem throws_answer (q : Q) :
    ¬ (answer q : Rec Q R ε (R q)).Throws solve e := by
  rintro ⟨r, -, h⟩
  exact h

@[simp] theorem throws_ofExcept (x : Except ε α) :
    (ofExcept x : Rec Q R ε α).Throws solve e ↔ x = .error e := by
  cases x <;> simp [ofExcept, Throws]

@[simp] theorem throws_bind (x : Rec Q R ε α) (f : α → Rec Q R ε β) :
    (x >>= f).Throws solve e ↔
      x.Throws solve e ∨ ∃ a, x.eval solve = .ok a ∧ (f a).Throws solve e := by
  induction x with
  | pure a => simp [Bind.bind, Rec.bind, Throws, Rec.eval]
  | throw e' => simp [Bind.bind, Rec.bind, Throws, Rec.eval]
  | ask q next ih =>
    show (∃ r, solve q = .ok r ∧ (next r >>= f).Throws solve e) ↔
      (∃ r, solve q = .ok r ∧ (next r).Throws solve e) ∨
        ∃ a, (Rec.ask q next).eval solve = .ok a ∧ (f a).Throws solve e
    simp only [ih, Rec.eval]
    cases solve q with
    | ok r => simp
    | error e' => simp

end

/-! ### Two evaluations -/

section
variable {Q' : Type} {R' : Q' → Type} {ε' α' β' : Type} {Like : Q → Q' → Prop}
  {Fit : (q : Q) → (q' : Q') → R q → R' q' → Prop} {S : α → α' → Prop} {T : β → β' → Prop}

/-- Step by step, the second computation asks and answers as the first one does, as long as that
does not fail. -/
def Follows (Like : Q → Q' → Prop) (Fit : (q : Q) → (q' : Q') → R q → R' q' → Prop)
    (S : α → α' → Prop) : Rec Q R ε α → Rec Q' R' ε' α' → Prop
  | .pure a, .pure b => S a b
  | .throw _, _ => True
  | .ask q next, .ask q' next' =>
    Like q q' ∧ ∀ r r', Fit q q' r r' → (next r).Follows Like Fit S (next' r')
  | _, _ => False

theorem follows_pure {a : α} {a' : α'} (h : S a a') :
    (Pure.pure a : Rec Q R ε α).Follows Like Fit S (Pure.pure a' : Rec Q' R' ε' α') := h

theorem Follows.bind {x : Rec Q R ε α} {x' : Rec Q' R' ε' α'} {f : α → Rec Q R ε β}
    {f' : α' → Rec Q' R' ε' β'} (hx : x.Follows Like Fit S x')
    (hf : ∀ a a', S a a' → (f a).Follows Like Fit T (f' a')) :
    (x >>= f).Follows Like Fit T (x' >>= f') := by
  induction x generalizing x' with
  | pure a =>
    cases x' with
    | pure a' => exact hf a a' hx
    | throw e => exact hx.elim
    | ask q next => exact hx.elim
  | throw e => trivial
  | ask q next ih =>
    cases x' with
    | pure a' => exact hx.elim
    | throw e => exact hx.elim
    | ask q' next' => exact ⟨hx.1, fun r r' hr => ih r (hx.2 r r' hr)⟩

end

end Rec

/-! ### The function -/

/-- A question asked for another one is smaller, where the answers fit. -/
structure Recursion (Q : Type) (R : Q → Type) (ε : Type) where
  body : (q : Q) → Rec Q R ε (R q)
  size : Q → Nat
  Fits : (q : Q) → R q → Prop
  descends : ∀ q, (body q).Bounded (fun q' => size q' < size q) Fits (Fits q)

namespace Recursion

variable {Q : Type} {R : Q → Type} {ε : Type} [Inhabited ε] (F : Recursion Q R ε)

/-- Evaluation to a depth. -/
def run : Nat → (q : Q) → Except ε (R q)
  | 0, _ => .error default
  | depth + 1, q => (F.body q).eval (run depth)

def solve (q : Q) : Except ε (R q) := F.run (F.size q + 1) q

variable {F}

theorem run_fits {depth : Nat} {q : Q} {r : R q} (h : F.run depth q = .ok r) : F.Fits q r := by
  induction depth generalizing q with
  | zero => simp [run] at h
  | succ depth ih => exact (F.descends q).eval (fun q' r' _ hr' => ih hr') h

/-- Deeper than the size of the question, the depth does not matter. -/
theorem run_eq {depth depth' : Nat} {q : Q} (h : F.size q < depth) (h' : F.size q < depth') :
    F.run depth q = F.run depth' q := by
  induction depth generalizing depth' q with
  | zero => omega
  | succ depth ih =>
    obtain ⟨depth', rfl⟩ : ∃ n, depth' = n + 1 := ⟨depth' - 1, by omega⟩
    refine (F.descends q).eval_congr (fun q' r' _ hr' => run_fits hr') fun q' hq' => ?_
    exact ih (by omega) (by omega)

theorem solve_fits {q : Q} {r : R q} (h : F.solve q = .ok r) : F.Fits q r := run_fits h

theorem solve_eq (q : Q) : F.solve q = (F.body q).eval F.solve := by
  refine (F.descends q).eval_congr (fun q' r' _ hr' => run_fits hr') fun q' hq' => ?_
  exact run_eq hq' (Nat.lt_succ_self _)

/-! ### Reached questions -/

variable (F) in
def Asks (q q' : Q) : Prop := (F.body q).Asked F.solve q'

variable (F) in
def Reaches : Q → Q → Prop := Relation.ReflTransGen F.Asks

theorem bound_of_asked {α : Type} {P : Q → Prop} {S : α → Prop} {x : Rec Q R ε α}
    (hx : x.Bounded P F.Fits S) {q : Q} (h : x.Asked F.solve q) : P q := by
  induction x with
  | pure a => exact h.elim
  | throw e => exact h.elim
  | ask q' next ih =>
    rcases h with rfl | ⟨r, hr, h⟩
    · exact hx.1
    · exact ih r (hx.2 r (solve_fits hr)) h

theorem Asks.size_lt {q q' : Q} (h : F.Asks q q') : F.size q' < F.size q :=
  bound_of_asked (F.descends q) h

/-- Questions are not asked for each other without end. -/
theorem not_asks_forever (questions : Nat → Q) : ¬ ∀ n, F.Asks (questions n) (questions (n + 1)) := by
  intro hasks
  have hsize (n : Nat) : F.size (questions n) + n ≤ F.size (questions 0) := by
    induction n with
    | zero => exact Nat.le_refl _
    | succ n ih =>
      have hlt := (hasks n).size_lt
      omega
  have hend := hsize (F.size (questions 0) + 1)
  omega

/-- An evaluation fails iff a question it reaches fails by itself. -/
theorem solve_eq_error_iff {q : Q} {e : ε} : F.solve q = .error e ↔
    ∃ q', F.Reaches q q' ∧ (F.body q').Throws F.solve e := by
  constructor
  · intro h
    induction hn : F.size q using Nat.strongRecOn generalizing q with
    | _ n ih =>
      subst hn
      rw [solve_eq, Rec.eval_eq_error_iff] at h
      rcases h with hthrows | ⟨q', hasks, hq'⟩
      · exact ⟨q, .refl, hthrows⟩
      · obtain ⟨q'', hreach, hthrows⟩ := ih _ (Asks.size_lt hasks) hq' rfl
        exact ⟨q'', .head hasks hreach, hthrows⟩
  · rintro ⟨q', hreach, hthrows⟩
    induction hreach using Relation.ReflTransGen.head_induction_on with
    | refl => exact (solve_eq q').trans (Rec.eval_eq_error_iff.mpr (.inl hthrows))
    | head hasks _ ih =>
      exact (solve_eq _).trans (Rec.eval_eq_error_iff.mpr (.inr ⟨_, hasks, ih⟩))

/-- Every question an evaluation that succeeds reaches is answered. -/
theorem ok_of_reaches {q q' : Q} {r : R q} (h : F.solve q = .ok r) (hreach : F.Reaches q q') :
    ∃ r', F.solve q' = .ok r' := by
  cases hq' : F.solve q' with
  | ok r' => exact ⟨r', rfl⟩
  | error e =>
    obtain ⟨q'', hreach', hthrows⟩ := solve_eq_error_iff.mp hq'
    have herror := solve_eq_error_iff.mpr ⟨q'', hreach.trans hreach', hthrows⟩
    rw [h] at herror
    simp at herror

/-- What holds of an answer if it holds of the answers it is made from. -/
theorem solve_induction {P : Q → Prop} {Good : (q : Q) → R q → Prop}
    (hP : ∀ q q', P q → F.Asks q q' → P q')
    (h : ∀ q, P q → (F.body q).Bounded (fun _ => True) (fun q' r => F.solve q' = .ok r ∧ Good q' r)
      (Good q)) {q : Q} (hq : P q) {r : R q} (hr : F.solve q = .ok r) : Good q r := by
  induction hn : F.size q using Nat.strongRecOn generalizing q with
  | _ n ih =>
    subst hn
    have hgood : ∀ q', F.Asks q q' → ∀ r', F.solve q' = .ok r' → Good q' r' := fun q' hasks r' hr' =>
      ih _ hasks.size_lt (hP q q' hq hasks) hr' rfl
    have hbody := h q hq
    rw [solve_eq] at hr
    unfold Asks at hgood
    generalize F.body q = x at hbody hr hgood
    induction x with
    | pure a => exact Except.ok.inj hr ▸ hbody
    | throw e => simp [Rec.eval] at hr
    | ask q' next ihx =>
      simp only [Rec.eval] at hr
      cases hq' : F.solve q' with
      | error e => simp [hq'] at hr
      | ok r' =>
        rw [hq'] at hr
        refine ihx r' (hbody.2 r' ⟨hq', hgood q' (.inl rfl) r' hq'⟩) hr fun p hp => ?_
        exact hgood p (.inr ⟨r', hq', hp⟩)

/-! ### Two functions -/

section
variable {Q' : Type} {R' : Q' → Type} {ε' : Type} [Inhabited ε'] {F' : Recursion Q' R' ε'}
  {Like : Q → Q' → Prop} {Fit : (q : Q) → (q' : Q') → R q → R' q' → Prop}

theorem eval_of_follows {α β : Type} {T : α → β → Prop} {x : Rec Q R ε α} {y : Rec Q' R' ε' β}
    (hxy : x.Follows Like
      (fun q q' r r' => F.solve q = .ok r ∧ F'.solve q' = .ok r' ∧ Fit q q' r r') T y)
    (h : ∀ q q' r, x.Asked F.solve q → y.Asked F'.solve q' → Like q q' → F.solve q = .ok r →
      ∃ r', F'.solve q' = .ok r' ∧ Fit q q' r r')
    {a : α} (ha : x.eval F.solve = .ok a) : ∃ b, y.eval F'.solve = .ok b ∧ T a b := by
  induction x generalizing y with
  | pure a' =>
    cases y with
    | pure b => exact ⟨b, rfl, Except.ok.inj ha ▸ hxy⟩
    | throw e => exact hxy.elim
    | ask q' next' => exact hxy.elim
  | throw e => simp [Rec.eval] at ha
  | ask q next ih =>
    cases y with
    | pure b => exact hxy.elim
    | throw e => exact hxy.elim
    | ask q' next' =>
      simp only [Rec.eval] at ha ⊢
      cases hq : F.solve q with
      | error e => simp [hq] at ha
      | ok r =>
        rw [hq] at ha
        obtain ⟨r', hr', hfit⟩ := h q q' r (.inl rfl) (.inl rfl) hxy.1 hq
        rw [hr']
        refine ih r (hxy.2 r r' ⟨hq, hr', hfit⟩) (fun p p' r hp hp' => ?_) ha
        exact h p p' r (.inr ⟨_, hq, hp⟩) (.inr ⟨_, hr', hp'⟩)

/-- Another function answers what this one answers if, at each question, it is known to do so or what
it does can be written as a computation that follows the body. -/
theorem solve_follows_or {P : Q → Prop} {P' : Q' → Prop} (hP : ∀ q p, P q → F.Asks q p → P p)
    (h : ∀ q q', P q → P' q' → Like q q' →
      (∀ r, F.solve q = .ok r → ∃ r', F'.solve q' = .ok r' ∧ Fit q q' r r') ∨
      ∃ x : Rec Q' R' ε' (R' q'),
        F'.solve q' = x.eval F'.solve ∧ (∀ p', x.Asked F'.solve p' → P' p') ∧
        (F.body q).Follows Like
          (fun p p' r r' => F.solve p = .ok r ∧ F'.solve p' = .ok r' ∧ Fit p p' r r') (Fit q q') x)
    {q : Q} {q' : Q'} (hq : P q) (hq' : P' q') (hlike : Like q q') {r : R q}
    (hr : F.solve q = .ok r) : ∃ r', F'.solve q' = .ok r' ∧ Fit q q' r r' := by
  induction hn : F.size q using Nat.strongRecOn generalizing q q' with
  | _ n ih =>
    subst hn
    rcases h q q' hq hq' hlike with hknown | ⟨x, hx, hasked, hfollows⟩
    · exact hknown r hr
    · rw [solve_eq] at hr
      rw [hx]
      refine eval_of_follows hfollows (fun p p' r hp hp' hpp' hr => ?_) hr
      exact ih _ (Asks.size_lt hp) (hP q p hq hp) (hasked p' hp') hpp' hr rfl

/-- If what another function does can be written as a computation that follows the body, it answers
what this one answers. -/
theorem solve_follows {P : Q → Prop} {P' : Q' → Prop} (hP : ∀ q p, P q → F.Asks q p → P p)
    (h : ∀ q q', P q → P' q' → Like q q' → ∃ x : Rec Q' R' ε' (R' q'),
      F'.solve q' = x.eval F'.solve ∧ (∀ p', x.Asked F'.solve p' → P' p') ∧
      (F.body q).Follows Like
        (fun p p' r r' => F.solve p = .ok r ∧ F'.solve p' = .ok r' ∧ Fit p p' r r') (Fit q q') x)
    {q : Q} {q' : Q'} (hq : P q) (hq' : P' q') (hlike : Like q q') {r : R q}
    (hr : F.solve q = .ok r) : ∃ r', F'.solve q' = .ok r' ∧ Fit q q' r r' :=
  solve_follows_or hP (fun q q' hq hq' hlike => .inr (h q q' hq hq' hlike)) hq hq' hlike hr

end

end Recursion

end Covm.Partial
