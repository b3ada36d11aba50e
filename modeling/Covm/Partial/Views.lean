import Covm.Partial.Basic
import Mathlib.Logic.Relation

/-!
# Computations through a view

Of a state only a part may matter. `Sends view m t a t'` says that `m`, started where the view is
`t`, ends with `a` where it is `t'`, whatever the rest of the state is. A loop whose test and body
send the views `v i` along an iteration `i ↦ next i` ends exactly where the iteration stops
(`sends_whileDo`, `exists_of_whileDo`).
-/

namespace Covm.Partial.Sem

variable {ε σ τ α β : Type} {view : σ → τ}

def Sends (view : σ → τ) (m : Sem ε σ α) (t : τ) (a : α) (t' : τ) : Prop :=
  ∀ s, view s = t → ∃ s', m s (.ok a s') ∧ view s' = t'

section
variable {m : Sem ε σ α} {f : α → Sem ε σ β} {t t' t'' : τ} {a : α} {b : β}

theorem sends_pure : Sends view (pure a : Sem ε σ α) t a t :=
  fun s hs => ⟨s, pure_iff.mpr rfl, hs⟩

theorem Sends.bind (hm : Sends view m t a t') (hf : Sends view (f a) t' b t'') :
    Sends view (m >>= f) t b t'' := by
  intro s hs
  obtain ⟨s', hms, hs'⟩ := hm s hs
  obtain ⟨s'', hfs, hs''⟩ := hf s' hs'
  exact ⟨s'', bind_ok hms hfs, hs''⟩

theorem sends_ends {x : Comp ε σ α} (h : ∀ s, view s = t → ∃ s', x s = .ok a s' ∧ view s' = t') :
    Sends view (ends x) t a t' := by
  intro s hs
  obtain ⟨s', hx, hs'⟩ := h s hs
  exact ⟨s', ends_iff.mpr hx, hs'⟩

/-- What is sent somewhere has no other outcome. -/
theorem Sends.outcome (hm : Sends view m t a t') (hfun : m.Functional) {s : σ} {r : Outcome ε σ α}
    (hs : view s = t) (h : m s r) : ∃ s', r = .ok a s' ∧ view s' = t' := by
  obtain ⟨s', hms, hs'⟩ := hm s hs
  exact ⟨s', hfun s _ _ h hms, hs'⟩

/-- A sequence goes on where its first part was sent. -/
theorem Sends.of_bind (hm : Sends view m t a t') (hfun : m.Functional) {s : σ} {r : Outcome ε σ β}
    (hs : view s = t) (h : (m >>= f) s r) : ∃ s', view s' = t' ∧ f a s' r := by
  obtain ⟨s', hms, hs'⟩ := hm s hs
  refine ⟨s', hs', ?_⟩
  rwa [hfun.bind_of_ok hms] at h

end

/-! ### Loops -/

section
variable {ι : Type}

/-- One round, if there is one. -/
def Round (holds : ι → Bool) (next : ι → ι) (i j : ι) : Prop := holds i = true ∧ j = next i

/-- The rounds lead from `i` to `j`, and no further. -/
def StopsAt (holds : ι → Bool) (next : ι → ι) (i j : ι) : Prop :=
  Relation.ReflTransGen (Round holds next) i j ∧ holds j = false

variable {holds : ι → Bool} {next : ι → ι} {i j : ι}

theorem stopsAt_self (h : holds i = false) : StopsAt holds next i i := ⟨.refl, h⟩

theorem StopsAt.head (hi : holds i = true) (h : StopsAt holds next (next i) j) :
    StopsAt holds next i j := ⟨.head ⟨hi, rfl⟩ h.1, h.2⟩

theorem stopsAt_iterate {rounds : Nat} (hgo : ∀ k < rounds, holds (next^[k] i) = true)
    (hstop : holds (next^[rounds] i) = false) : StopsAt holds next i (next^[rounds] i) := by
  induction rounds generalizing i with
  | zero => exact stopsAt_self hstop
  | succ rounds ih =>
    refine .head (hgo 0 rounds.succ_pos) (ih (fun k hk => ?_) hstop)
    exact hgo (k + 1) (Nat.succ_lt_succ hk)

theorem StopsAt.unique {j' : ι} (h : StopsAt holds next i j) (h' : StopsAt holds next i j') :
    j = j' := by
  have hstop {k k' : ι} (hk : holds k = false)
      (hrounds : Relation.ReflTransGen (Round holds next) k k') : k = k' := by
    rcases hrounds.cases_head with heq | ⟨_, hround, -⟩
    · exact heq
    · exact absurd hround.1 (by rw [hk]; exact Bool.false_ne_true)
  have hdet : Relator.RightUnique (Round holds next) := by
    rintro k _ _ ⟨-, rfl⟩ ⟨-, rfl⟩
    rfl
  rcases h.1.total_of_right_unique hdet h'.1 with hjj' | hj'j
  · exact hstop h.2 hjj'
  · exact (hstop h'.2 hj'j).symm

/-- The last round before the end, if there is one. -/
theorem StopsAt.last (h : StopsAt holds next i j) :
    j = i ∨ ∃ k, holds k = true ∧ j = next k := by
  rcases h.1.cases_tail with rfl | ⟨k, -, hk, rfl⟩
  · exact .inl rfl
  · exact .inr ⟨k, hk, rfl⟩

variable {test : Sem ε σ Bool} {body : Sem ε σ Unit} {v : ι → τ}
  (htest : ∀ i, Sends view test (v i) (holds i) (v i))
  (hbody : ∀ i, holds i = true → Sends view body (v i) () (v (next i)))
include htest hbody

theorem sends_whileDo (h : StopsAt holds next i j) :
    Sends view (whileDo test body) (v i) () (v j) := by
  obtain ⟨hrounds, hstop⟩ := h
  induction hrounds using Relation.ReflTransGen.head_induction_on with
  | refl =>
    intro s hs
    obtain ⟨s', ht, hs'⟩ := htest j s hs
    rw [hstop] at ht
    exact ⟨s', .stop ht, hs'⟩
  | head hround _ ih =>
    obtain ⟨hi, rfl⟩ := hround
    intro s hs
    obtain ⟨s₁, ht, hs₁⟩ := htest _ s hs
    obtain ⟨s₂, hb, hs₂⟩ := hbody _ hi s₁ hs₁
    obtain ⟨s', hw, hs'⟩ := ih s₂ hs₂
    rw [hi] at ht
    exact ⟨s', .again ht hb hw, hs'⟩

/-- A loop that ends has come to where the rounds stop. -/
theorem exists_of_whileDo (hfunTest : test.Functional) (hfunBody : body.Functional) {s : σ}
    {r : Outcome ε σ Unit} (h : whileDo test body s r) (hs : view s = v i) :
    ∃ j s', StopsAt holds next i j ∧ r = .ok () s' ∧ view s' = v j := by
  induction h generalizing i with
  | stop ht =>
    obtain ⟨s', heq, hs'⟩ := (htest i).outcome hfunTest hs ht
    cases hi : holds i with
    | true =>
      rw [hi] at heq
      cases heq
    | false =>
      rw [hi] at heq
      cases heq
      exact ⟨i, _, stopsAt_self hi, rfl, hs'⟩
  | testFault ht =>
    obtain ⟨s', heq, -⟩ := (htest i).outcome hfunTest hs ht
    cases heq
  | bodyFault ht hb =>
    obtain ⟨s₁, heq, hs₁⟩ := (htest i).outcome hfunTest hs ht
    cases hi : holds i with
    | true =>
      rw [hi] at heq
      cases heq
      obtain ⟨s₂, heq₂, -⟩ := (hbody i hi).outcome hfunBody hs₁ hb
      cases heq₂
    | false =>
      rw [hi] at heq
      cases heq
  | again ht hb _ ih =>
    obtain ⟨s₁, heq, hs₁⟩ := (htest i).outcome hfunTest hs ht
    cases hi : holds i with
    | true =>
      rw [hi] at heq
      cases heq
      obtain ⟨s₂, heq₂, hs₂⟩ := (hbody i hi).outcome hfunBody hs₁ hb
      cases heq₂
      obtain ⟨j, s', hstops, hr, hs'⟩ := ih hs₂
      exact ⟨j, s', hstops.head hi, hr, hs'⟩
    | false =>
      rw [hi] at heq
      cases heq

end

end Covm.Partial.Sem
