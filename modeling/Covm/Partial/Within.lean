import Covm.Partial.Basic
import Mathlib.Order.Defs.Unbundled

/-!
# How far a computation moves the state

`Comp.Within R x`: wherever `x` starts and however it stops, its last state is related by `R` to
the first one. For a preorder `R` this is closed under sequencing, so that it is proved of a
program by going through its operations. `Agree f` is the preorder "`f` is left as it was".
`Keeps P x` is the same for a property of one state.
-/

namespace Covm.Partial

variable {ε σ τ α β γ : Type}

/-- The last state, of a computation that ended in any way. -/
def final : EStateM.Result ε σ α → σ
  | .ok _ s => s
  | .error _ s => s

@[simp] theorem final_ok (a : α) (s : σ) : final (.ok a s : EStateM.Result ε σ α) = s := rfl

@[simp] theorem final_error (e : ε) (s : σ) : final (.error e s : EStateM.Result ε σ α) = s := rfl

def succeeded : EStateM.Result ε σ α → Bool
  | .ok _ _ => true
  | .error _ _ => false

@[simp] theorem succeeded_ok (a : α) (s : σ) :
    succeeded (.ok a s : EStateM.Result ε σ α) = true := rfl

@[simp] theorem succeeded_error (e : ε) (s : σ) :
    succeeded (.error e s : EStateM.Result ε σ α) = false := rfl

theorem eq_ok_of_succeeded {r : EStateM.Result ε σ Unit} (h : succeeded r = true) :
    r = .ok () (final r) := by
  cases r with
  | ok a s => rfl
  | error e s => exact nomatch h

/-- The result without the state. -/
def answer : EStateM.Result ε σ α → Except ε α
  | .ok a _ => .ok a
  | .error e _ => .error e

@[simp] theorem answer_error (e : ε) (s : σ) :
    answer (.error e s : EStateM.Result ε σ α) = .error e := rfl

theorem eq_ok_of_answer {r : EStateM.Result ε σ α} {a : α} (h : answer r = .ok a) :
    r = .ok a (final r) := by
  cases r with
  | ok b s => rw [Except.ok.inj h, final_ok]
  | error e s => exact nomatch h

theorem eq_error_of_answer {r : EStateM.Result ε σ α} {e : ε} (h : answer r = .error e) :
    r = .error e (final r) := by
  cases r with
  | ok b s => exact nomatch h
  | error e' s => rw [Except.error.inj h, final_error]

theorem bind_eq_ok {x : EStateM ε σ α} {f : α → EStateM ε σ β} {s s'' : σ} {b : β} :
    (x >>= f) s = .ok b s'' ↔ ∃ a s', x s = .ok a s' ∧ f a s' = .ok b s'' := by
  simp only [Bind.bind, EStateM.bind]
  cases x s with
  | ok a s' =>
    constructor
    · exact fun h => ⟨a, s', rfl, h⟩
    · rintro ⟨_, _, heq, h⟩
      cases heq
      exact h
  | error e s' => simp

theorem answer_map (f : α → β) (x : EStateM ε σ α) (s : σ) :
    answer ((f <$> x) s) = (answer (x s)).map f := by
  simp only [Functor.map, EStateM.map]
  cases x s <;> rfl

theorem final_map (f : α → β) (x : EStateM ε σ α) (s : σ) :
    final ((f <$> x) s) = final (x s) := by
  simp only [Functor.map, EStateM.map]
  cases x s <;> rfl

/-- `f` is left as it was. -/
def Agree (f : σ → γ) (s t : σ) : Prop := f t = f s

instance (f : σ → γ) : Std.Refl (Agree f) := ⟨fun _ => rfl⟩

instance (f : σ → γ) : IsTrans σ (Agree f) := ⟨fun _ _ _ h h' => h'.trans h⟩

/-! ## Properties of one state -/

/-- `P` holds after the computation, however it stops, if it held before. -/
def Keeps (P : σ → Prop) (x : EStateM ε σ α) : Prop := ∀ s, P s → P (final (x s))

section
variable {P : σ → Prop}

/-- A computation that leaves the state as it is. -/
theorem Keeps.of_final_eq {x : EStateM ε σ α} (h : ∀ s, final (x s) = s) : Keeps P x := by
  intro s hs
  rwa [h s]

theorem Keeps.pure (a : α) : Keeps P (pure a : EStateM ε σ α) := .of_final_eq fun _ => rfl

/-- What is done with a state that is looked at may rely on `P`. -/
theorem Keeps.get_bind {f : σ → EStateM ε σ α} (h : ∀ s, P s → Keeps P (f s)) :
    Keeps P (EStateM.get >>= f) := fun s hs => h s hs s hs

theorem Keeps.modify {f : σ → σ} (h : ∀ s, P s → P (f s)) :
    Keeps P (modify f : EStateM ε σ PUnit) := h

theorem Keeps.bind {x : EStateM ε σ α} {f : α → EStateM ε σ β} (hx : Keeps P x)
    (hf : ∀ a, Keeps P (f a)) : Keeps P (x >>= f) := by
  intro s hs
  have h := hx s hs
  simp only [Bind.bind, EStateM.bind]
  cases hxs : x s with
  | ok a s' =>
    rw [hxs] at h
    exact hf a s' h
  | error e s' =>
    rw [hxs] at h
    exact h

theorem Keeps.ite {p : Prop} [Decidable p] {x y : EStateM ε σ α} (hx : Keeps P x)
    (hy : Keeps P y) : Keeps P (if p then x else y) := by
  split
  · exact hx
  · exact hy

/-- An early `if` without an `else`. -/
theorem Keeps.guard {p : Prop} [Decidable p] {x : EStateM ε σ α} {y : EStateM ε σ β}
    (hx : Keeps P x) (hy : Keeps P y) : Keeps P (if p then x >>= fun _ => y else y) :=
  .ite (hx.bind fun _ => hy) hy

end

namespace Comp

variable {R : σ → σ → Prop}

def Within (R : σ → σ → Prop) (x : Comp ε σ α) : Prop := ∀ s, R s (final (x s))

theorem Within.pure [Std.Refl R] (a : α) : Within R (pure a : Comp ε σ α) :=
  fun s => Std.Refl.refl s

theorem Within.fail [Std.Refl R] (e : ε) : Within R (fail e : Comp ε σ α) :=
  fun s => Std.Refl.refl s

theorem Within.get [Std.Refl R] : Within R (get : Comp ε σ σ) := fun s => Std.Refl.refl s

theorem Within.bind [IsTrans σ R] {x : Comp ε σ α} {f : α → Comp ε σ β} (hx : Within R x)
    (hf : ∀ a, Within R (f a)) : Within R (x >>= f) := by
  intro s
  have h := hx s
  rw [bind_apply]
  cases hs : x s with
  | ok a s' =>
    rw [hs] at h
    exact IsTrans.trans _ _ _ h (hf a s')
  | error e s' =>
    rw [hs] at h
    exact h

/-- What is done with the result leaves the last state alone. -/
theorem final_bind_pure (x : Comp ε σ α) (f : α → β) (s : σ) :
    final ((x >>= fun a => Pure.pure (f a)) s) = final (x s) := by
  rw [bind_apply]
  cases x s <;> rfl

theorem Within.map [IsTrans σ R] [Std.Refl R] {x : Comp ε σ α} (f : α → β) (hx : Within R x) :
    Within R (f <$> x) := by
  rw [← bind_pure_comp]
  exact hx.bind fun a => .pure (f a)

theorem Within.ite {p : Prop} [Decidable p] {x y : Comp ε σ α} (hx : Within R x)
    (hy : Within R y) : Within R (if p then x else y) := by
  split
  · exact hx
  · exact hy

/-- On a component that `R` does not look at. -/
theorem Within.zoom {get : σ → τ} {set : τ → σ → σ} (h : ∀ s t, R s (set t s))
    (x : Comp ε τ α) : Within R (x.zoom get set) := by
  intro s
  unfold Comp.zoom
  split
  · exact h s _
  · exact h s _

theorem Within.mono {R' : σ → σ → Prop} (h : ∀ s t, R s t → R' s t) {x : Comp ε σ α}
    (hx : Within R x) : Within R' x := fun s => h _ _ (hx s)

theorem Within.ok {x : Comp ε σ α} (hx : Within R x) {s s' : σ} {a : α} (h : x s = .ok a s') :
    R s s' := by
  simpa [h] using hx s

theorem Within.error {x : Comp ε σ α} (hx : Within R x) {s s' : σ} {e : Stop ε}
    (h : x s = .error e s') : R s s' := by
  simpa [h] using hx s

end Comp

end Covm.Partial
