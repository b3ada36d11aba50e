import Covm.Partial.Machine

/-!
# Where a computation stops with a given error

`Raises e x s`: from `s` the computation `x` stops with `e`. A sequence raises `e` where its first
part does, or where the rest does after it (`raises_bind`). `Avoids e x`: nowhere. What avoids an
error drops out of a sequence on either side, so that the start states that raise it are found by
going through a program and keeping only the parts that can.
-/

namespace Covm.Partial

variable {ε σ τ α β : Type} {e : ε}

def Raises (e : ε) (x : EStateM ε σ α) (s : σ) : Prop := ∃ t, x s = .error e t

def Avoids (e : ε) (x : EStateM ε σ α) : Prop := ∀ s, ¬ Raises e x s

theorem Raises.of_eq {x : EStateM ε σ α} {s t : σ} (h : x s = .error e t) : Raises e x s := ⟨t, h⟩

theorem not_raises_of_ok {x : EStateM ε σ α} {s t : σ} {a : α} (h : x s = .ok a t) :
    ¬ Raises e x s := by
  rintro ⟨u, hu⟩
  rw [h] at hu
  cases hu

/-- A computation stops with at most one error. -/
theorem not_raises_of_error {x : EStateM ε σ α} {s t : σ} {e' : ε} (h : x s = .error e' t)
    (hne : e' ≠ e) : ¬ Raises e x s := by
  rintro ⟨u, hu⟩
  rw [h] at hu
  exact hne (EStateM.Result.error.inj hu).1

theorem raises_bind {x : EStateM ε σ α} {f : α → EStateM ε σ β} {s : σ} :
    Raises e (x >>= f) s ↔ Raises e x s ∨ ∃ a t, x s = .ok a t ∧ Raises e (f a) t := by
  unfold Raises
  simp only [bind, EStateM.bind]
  cases hx : x s with
  | ok a t => simp
  | error e' t => simp

theorem raises_bind_of_ok {x : EStateM ε σ α} {f : α → EStateM ε σ β} {s t : σ} {a : α}
    (h : x s = .ok a t) : Raises e (x >>= f) s ↔ Raises e (f a) t := by
  rw [raises_bind]
  constructor
  · rintro (hx | ⟨a', t', hx, hf⟩)
    · exact absurd hx (not_raises_of_ok h)
    · rw [h] at hx
      cases hx
      exact hf
  · exact fun hf => .inr ⟨a, t, h, hf⟩

theorem not_raises_bind_of_error {x : EStateM ε σ α} {f : α → EStateM ε σ β} {s t : σ} {e' : ε}
    (h : x s = .error e' t) (hne : e' ≠ e) : ¬ Raises e (x >>= f) s := by
  rw [raises_bind]
  rintro (hx | ⟨a, u, hx, -⟩)
  · exact not_raises_of_error h hne hx
  · rw [h] at hx
    cases hx

/-- Only the first part can raise `e`. -/
theorem raises_bind_left {x : EStateM ε σ α} {f : α → EStateM ε σ β} {s : σ}
    (hf : ∀ a, Avoids e (f a)) : Raises e (x >>= f) s ↔ Raises e x s := by
  rw [raises_bind]
  refine ⟨?_, .inl⟩
  rintro (hx | ⟨a, t, -, h⟩)
  · exact hx
  · exact absurd h (hf a t)

/-- Only the rest can raise `e`. -/
theorem raises_bind_right {x : EStateM ε σ α} {f : α → EStateM ε σ β} {s : σ}
    (hx : Avoids e x) : Raises e (x >>= f) s ↔ ∃ a t, x s = .ok a t ∧ Raises e (f a) t := by
  rw [raises_bind]
  exact ⟨fun h => h.resolve_left (hx s), .inr⟩

theorem raises_map {f : α → β} {x : EStateM ε σ α} {s : σ} :
    Raises e (f <$> x) s ↔ Raises e x s := by
  unfold Raises
  simp only [Functor.map, EStateM.map]
  cases x s <;> simp

theorem Avoids.of_ok {x : EStateM ε σ α} (h : ∀ s, ∃ a t, x s = .ok a t) : Avoids e x := by
  intro s
  obtain ⟨a, t, hx⟩ := h s
  exact not_raises_of_ok hx

theorem Avoids.pure (a : α) : Avoids e (pure a : EStateM ε σ α) := .of_ok fun s => ⟨a, s, rfl⟩

theorem Avoids.get : Avoids e (EStateM.get : EStateM ε σ σ) := .of_ok fun s => ⟨s, s, rfl⟩

theorem Avoids.modify (f : σ → σ) : Avoids e (modify f : EStateM ε σ PUnit) :=
  .of_ok fun s => ⟨⟨⟩, f s, rfl⟩

theorem Avoids.bind {x : EStateM ε σ α} {f : α → EStateM ε σ β} (hx : Avoids e x)
    (hf : ∀ a, Avoids e (f a)) : Avoids e (x >>= f) := by
  intro s h
  rw [raises_bind] at h
  rcases h with h | ⟨a, t, -, h⟩
  · exact hx s h
  · exact hf a t h

theorem Avoids.map (f : α → β) {x : EStateM ε σ α} (hx : Avoids e x) : Avoids e (f <$> x) := by
  rw [← bind_pure_comp]
  exact hx.bind fun a => .pure (f a)

theorem Avoids.ite {p : Prop} [Decidable p] {x y : EStateM ε σ α} (hx : Avoids e x)
    (hy : Avoids e y) : Avoids e (if p then x else y) := by
  split
  · exact hx
  · exact hy

/-- An early `if` without an `else`. -/
theorem Avoids.guard {p : Prop} [Decidable p] {x : EStateM ε σ α} {y : EStateM ε σ β}
    (hx : Avoids e x) (hy : Avoids e y) : Avoids e (if p then x >>= fun _ => y else y) :=
  .ite (hx.bind fun _ => hy) hy

namespace Comp

variable {e : ε}

theorem avoids_fail {e' : ε} (h : e' ≠ e) : Avoids (.fault e) (Comp.fail e' : Comp ε σ α) := by
  intro s
  apply not_raises_of_error rfl
  intro heq
  exact h (Stop.fault.inj heq)

theorem raises_zoom {get : σ → τ} {set : τ → σ → σ} {x : Comp ε τ α} {s : σ} :
    Raises (.fault e) (x.zoom get set) s ↔ Raises (.fault e) x (get s) := by
  unfold Raises Comp.zoom
  cases x (get s) <;> simp

theorem avoids_zoom {get : σ → τ} {set : τ → σ → σ} {x : Comp ε τ α} (h : Avoids (.fault e) x) :
    Avoids (.fault e) (x.zoom get set) := fun s hs => h (get s) (raises_zoom.mp hs)

end Comp

/-! ## Runs -/

namespace Machine

variable {ς : Type} {M : Machine ε ς}

/-- A run ends with `e` exactly if it reaches a state whose step raises `e`. -/
theorem outcome_error_iff {s : ς} {e : ε} : (∃ t, M.outcome s (.error e t)) ↔
    ∃ t, M.Reaches s t ∧ M.running t = true ∧ Raises (.fault e) M.step t := by
  constructor
  · rintro ⟨u, hu⟩
    obtain ⟨t, ht, ⟨-, heq⟩ | ⟨e', u', hf, heq⟩⟩ := outcome_iff_reaches.mp hu
    · cases heq
    · cases heq
      exact ⟨t, ht, hf.1, u, hf.2⟩
  · rintro ⟨t, ht, hrun, u, hu⟩
    exact ⟨u, outcome_iff_reaches.mpr ⟨t, ht, .inr ⟨e, u, ⟨hrun, hu⟩, rfl⟩⟩⟩

end Machine

end Covm.Partial
