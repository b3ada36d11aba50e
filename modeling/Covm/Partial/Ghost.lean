import Covm.Partial.Within

/-!
# A ghost beside the state

`Comp ε (σ × τ) α` is a computation that keeps a ghost of type `τ` beside its state. `Erases x y`:
without the ghost, `x` is `y`. `Leads R x`: where `x` succeeds, its last state is related by `R` to
the first one.
-/

namespace Covm.Partial

variable {ε σ τ α β : Type}

namespace Comp

/-! ## Erasing the ghost -/

def erase : EStateM.Result (Stop ε) (σ × τ) α → EStateM.Result (Stop ε) σ α
  | .ok a s => .ok a s.1
  | .error e s => .error e s.1

/-- `x` does what `y` does, whatever the ghost. -/
def Erases (x : Comp ε (σ × τ) α) (y : Comp ε σ α) : Prop := ∀ s t, erase (x (s, t)) = y s

/-- A computation that leaves the ghost alone. -/
def beside (x : Comp ε σ α) : Comp ε (σ × τ) α := zoom Prod.fst (fun s p => (s, p.2)) x

theorem beside_eq_ok {x : Comp ε σ α} {s : σ} {t : τ} {a : α} {p : σ × τ} :
    beside x (s, t) = .ok a p ↔ ∃ s', x s = .ok a s' ∧ p = (s', t) := by
  unfold beside zoom
  cases x s <;> simp [eq_comm]

theorem Erases.beside (x : Comp ε σ α) : Erases (Comp.beside x : Comp ε (σ × τ) α) x := by
  intro s t
  unfold Comp.beside zoom
  cases x s <;> rfl

theorem Erases.pure (a : α) : Erases (Pure.pure a : Comp ε (σ × τ) α) (Pure.pure a) :=
  fun _ _ => rfl

theorem Erases.outOfFuel : Erases (Comp.outOfFuel : Comp ε (σ × τ) α) Comp.outOfFuel :=
  fun _ _ => rfl

theorem Erases.bind {x : Comp ε (σ × τ) α} {y : Comp ε σ α} {f : α → Comp ε (σ × τ) β}
    {g : α → Comp ε σ β} (h : Erases x y) (hf : ∀ a, Erases (f a) (g a)) :
    Erases (x >>= f) (y >>= g) := by
  intro s t
  have hx := h s t
  rw [bind_apply, bind_apply, ← hx]
  cases x (s, t) with
  | ok a p => exact hf a p.1 p.2
  | error e p => rfl

theorem Erases.repeatM {x : Comp ε (σ × τ) Unit} {y : Comp ε σ Unit} (h : Erases x y) (n : Nat) :
    Erases (Partial.repeatM x n) (Partial.repeatM y n) := by
  induction n with
  | zero => exact .pure ()
  | succ n ih => exact h.bind fun _ => ih

theorem Erases.whileFuel {test : Comp ε (σ × τ) Bool} {test' : Comp ε σ Bool}
    {body : Comp ε (σ × τ) Unit} {body' : Comp ε σ Unit} (ht : Erases test test')
    (hb : Erases body body') (n : Nat) :
    Erases (Partial.whileFuel test body n) (Partial.whileFuel test' body' n) := by
  induction n with
  | zero => exact .outOfFuel
  | succ n ih =>
    refine ht.bind fun b => ?_
    cases b with
    | false => exact .pure ()
    | true => exact hb.bind fun _ => ih

theorem Erases.ok_iff {x : Comp ε (σ × τ) α} {y : Comp ε σ α} (h : Erases x y) {s s' : σ} {t : τ}
    {a : α} : y s = .ok a s' ↔ ∃ t', x (s, t) = .ok a (s', t') := by
  rw [← h s t]
  cases x (s, t) with
  | ok b p => simp [erase, Prod.ext_iff]
  | error e p => simp [erase]

/-! ## Where a computation succeeds -/

def Leads (R : σ → σ → Prop) (x : Comp ε σ α) : Prop := ∀ ⦃s a s'⦄, x s = .ok a s' → R s s'

section
variable {R : σ → σ → Prop} [Std.Refl R] [IsTrans σ R]

omit [IsTrans σ R] in
theorem Leads.pure (a : α) : Leads R (Pure.pure a : Comp ε σ α) := by
  intro s b s' h
  cases h
  exact Std.Refl.refl s

omit [Std.Refl R] [IsTrans σ R] in
theorem Leads.outOfFuel : Leads R (Comp.outOfFuel : Comp ε σ α) := fun _ _ _ h => nomatch h

omit [Std.Refl R] in
theorem Leads.bind {x : Comp ε σ α} {f : α → Comp ε σ β} (hx : Leads R x)
    (hf : ∀ a, Leads R (f a)) : Leads R (x >>= f) := by
  intro s b s'' h
  obtain ⟨a, s', hxs, hfs⟩ := bind_eq_ok_iff.mp h
  exact IsTrans.trans _ _ _ (hx hxs) (hf a hfs)

theorem Leads.repeatM {x : Comp ε σ Unit} (hx : Leads R x) (n : Nat) :
    Leads R (Partial.repeatM x n) := by
  induction n with
  | zero => exact .pure ()
  | succ n ih => exact hx.bind fun _ => ih

theorem Leads.whileFuel {test : Comp ε σ Bool} {body : Comp ε σ Unit} (ht : Leads R test)
    (hb : Leads R body) (n : Nat) : Leads R (Partial.whileFuel test body n) := by
  induction n with
  | zero => exact .outOfFuel
  | succ n ih =>
    refine ht.bind fun b => ?_
    cases b with
    | false => exact .pure ()
    | true => exact hb.bind fun _ => ih

end

end Comp

end Covm.Partial
