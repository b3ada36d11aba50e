import Mathlib.Order.Lattice
import Mathlib.Tactic.Common

/-!
# Partial computations with a state and faults

An interpreter that may run for ever is written as a family `f : Nat → Comp ε σ α` indexed by
fuel. A `Comp` is a state computation (`EStateM`) that keeps its state when it stops, and stops
either because the fuel is used up (`Stop.fuel`) or with a genuine fault (`Stop.fault e`).

What such a family computes is its limit `lim f : Sem ε σ α`, the relation between a start state
and the outcome reached with *some* amount of fuel; divergence is the absence of an outcome. `Sem`
is a lawful monad and `lim` commutes with everything an interpreter is built from, provided the
parts are chains (`Chain f`: more fuel does not change an outcome):

* `lim_const`, `lim_bind`: sequencing;
* `lim_repeatM`: a counted loop;
* `lim_whileFuel`: a loop bounded by the fuel, against the inductive `Sem.whileDo`.

`Tends f m` packs the two facts about an interpreter's parts, a chain and its limit.

A limit of a chain is a partial function (`Chain.functional`). Nothing here is about a particular
language.
-/

namespace Covm.Partial

variable {ε σ α β : Type}

/-- Why a fuelled computation stopped before its end. -/
inductive Stop (ε : Type) where
  | fuel
  | fault (e : ε)

/-- A fuelled computation; the state survives a stop. -/
abbrev Comp (ε σ α : Type) := EStateM (Stop ε) σ α

/-- How a computation that was not short of fuel ends. -/
abbrev Outcome (ε σ α : Type) := EStateM.Result ε σ α

/-- An outcome, as a result of a fuelled computation. -/
def embed : Outcome ε σ α → EStateM.Result (Stop ε) σ α
  | .ok a s => .ok a s
  | .error e s => .error (.fault e) s

@[simp] theorem embed_ok (a : α) (s : σ) : embed (.ok a s : Outcome ε σ α) = .ok a s := rfl

@[simp] theorem embed_error (e : ε) (s : σ) :
    embed (.error e s : Outcome ε σ α) = .error (.fault e) s := rfl

theorem embed_injective : Function.Injective (embed : Outcome ε σ α → _) := by
  intro r r' h
  cases r <;> cases r' <;> simp_all

@[simp] theorem embed_eq_ok {r : Outcome ε σ α} {a : α} {s : σ} :
    .ok a s = embed r ↔ r = .ok a s := by
  cases r <;> simp [eq_comm]

@[simp] theorem embed_eq_fault {r : Outcome ε σ α} {e : ε} {s : σ} :
    .error (.fault e) s = embed r ↔ r = .error e s := by
  cases r <;> simp [eq_comm]

@[simp] theorem fuel_ne_embed {r : Outcome ε σ α} {s : σ} : .error .fuel s ≠ embed r := by
  cases r <;> simp

/-! ## Fuelled computations -/

namespace Comp

def outOfFuel : Comp ε σ α := fun s => .error .fuel s

def fail (e : ε) : Comp ε σ α := fun s => .error (.fault e) s

/-- Reads the state. -/
def asks (f : σ → α) : Comp ε σ α := fun s => .ok (f s) s

@[simp] theorem outOfFuel_apply (s : σ) : (outOfFuel : Comp ε σ α) s = .error .fuel s := rfl

@[simp] theorem fail_apply (e : ε) (s : σ) : (fail e : Comp ε σ α) s = .error (.fault e) s := rfl

@[simp] theorem asks_apply (f : σ → α) (s : σ) : (asks f : Comp ε σ α) s = .ok (f s) s := rfl

@[simp] theorem pure_apply (a : α) (s : σ) : (pure a : Comp ε σ α) s = .ok a s := rfl

@[simp] theorem set_apply (s s' : σ) : (EStateM.set s' : Comp ε σ PUnit) s = .ok ⟨⟩ s' := rfl

theorem get_bind (f : σ → Comp ε σ α) (s : σ) : (EStateM.get >>= f) s = f s s := rfl

theorem bind_apply (x : Comp ε σ α) (f : α → Comp ε σ β) (s : σ) :
    (x >>= f) s = match x s with
      | .ok a s' => f a s'
      | .error e s' => .error e s' := by
  simp only [bind, EStateM.bind]
  cases x s <;> rfl

theorem bind_of_ok {x : Comp ε σ α} {f : α → Comp ε σ β} {s s' : σ} {a : α}
    (h : x s = .ok a s') : (x >>= f) s = f a s' := by
  rw [bind_apply, h]

theorem bind_eq_ok_iff {x : Comp ε σ α} {f : α → Comp ε σ β} {s s' : σ} {b : β} :
    (x >>= f) s = .ok b s' ↔ ∃ a s₁, x s = .ok a s₁ ∧ f a s₁ = .ok b s' := by
  rw [bind_apply]
  cases x s <;> simp

theorem bind_eq_error_iff {x : Comp ε σ α} {f : α → Comp ε σ β} {s s' : σ} {e : Stop ε} :
    (x >>= f) s = .error e s' ↔
      x s = .error e s' ∨ ∃ a s₁, x s = .ok a s₁ ∧ f a s₁ = .error e s' := by
  rw [bind_apply]
  cases x s <;> simp

theorem bind_of_error {x : Comp ε σ α} {f : α → Comp ε σ β} {s s' : σ} {e : Stop ε}
    (h : x s = .error e s') : (x >>= f) s = .error e s' := by
  rw [bind_apply, h]

theorem bind_eq_embed_iff {x : Comp ε σ α} {f : α → Comp ε σ β} {s : σ} {r : Outcome ε σ β} :
    (x >>= f) s = embed r ↔
      (∃ a s', x s = .ok a s' ∧ f a s' = embed r) ∨
        ∃ e s', x s = .error (.fault e) s' ∧ r = .error e s' := by
  rw [bind_apply]
  cases hx : x s with
  | ok a s' => simp
  | error e s' =>
    cases e with
    | fuel => simp
    | fault e =>
      simp only [embed_eq_fault, reduceCtorEq, false_and]
      constructor
      · rintro rfl
        exact .inr ⟨e, s', rfl, rfl⟩
      · rintro (⟨_, _, h⟩ | ⟨e', s'', h, rfl⟩)
        · exact h.elim
        · cases h
          rfl

/-- Runs `x` on a component of the state. -/
def zoom {τ : Type} (get : σ → τ) (set : τ → σ → σ) (x : Comp ε τ α) : Comp ε σ α := fun s =>
  match x (get s) with
  | .ok a t => .ok a (set t s)
  | .error e t => .error e (set t s)

/-- The computation is never short of fuel. -/
def Definite (x : Comp ε σ α) : Prop := ∀ s s', x s ≠ .error .fuel s'

theorem Definite.pure (a : α) : Definite (Pure.pure a : Comp ε σ α) := fun _ _ h => by cases h

theorem Definite.fail (e : ε) : Definite (Comp.fail e : Comp ε σ α) := fun _ _ h => by cases h

theorem Definite.bind {x : Comp ε σ α} {f : α → Comp ε σ β} (hx : Definite x)
    (hf : ∀ a, Definite (f a)) : Definite (x >>= f) := by
  intro s s' h
  rcases bind_eq_error_iff.mp h with h | ⟨a, s₁, -, h⟩
  · exact hx s s' h
  · exact hf a s₁ s' h

theorem Definite.zoom {τ : Type} {get : σ → τ} {set : τ → σ → σ} {x : Comp ε τ α}
    (hx : Definite x) : Definite (Comp.zoom get set x) := by
  intro s s' h
  unfold Comp.zoom at h
  split at h
  · cases h
  · next e t he =>
    cases h
    exact hx _ _ he

/-- `y` ends as `x` does wherever `x` is not short of fuel. -/
def Le (x y : Comp ε σ α) : Prop := ∀ s r, x s = embed r → y s = embed r

theorem Le.refl (x : Comp ε σ α) : Le x x := fun _ _ h => h

theorem Le.trans {x y z : Comp ε σ α} (h : Le x y) (h' : Le y z) : Le x z :=
  fun s r hr => h' s r (h s r hr)

theorem Le.outOfFuel (y : Comp ε σ α) : Le Comp.outOfFuel y :=
  fun _ _ h => absurd h fuel_ne_embed

theorem Le.bind {x y : Comp ε σ α} {f g : α → Comp ε σ β} (h : Le x y)
    (hf : ∀ a, Le (f a) (g a)) : Le (x >>= f) (y >>= g) := by
  intro s r hr
  rw [bind_eq_embed_iff] at hr ⊢
  obtain ⟨a, s', hx, hr⟩ | ⟨e, s', hx, rfl⟩ := hr
  · exact .inl ⟨a, s', h s (.ok a s') hx, hf a s' r hr⟩
  · exact .inr ⟨e, s', h s (.error e s') hx, rfl⟩

end Comp

/-! ## Limits -/

/-- A partial state computation: the relation between start states and outcomes. -/
def Sem (ε σ α : Type) : Type := σ → Outcome ε σ α → Prop

@[ext] theorem Sem.ext {m m' : Sem ε σ α} (h : ∀ s r, m s r ↔ m' s r) : m = m' :=
  funext fun s => funext fun r => propext (h s r)

instance : Monad (Sem ε σ) where
  pure a := fun s r => r = .ok a s
  bind m f := fun s r =>
    (∃ a s', m s (.ok a s') ∧ f a s' r) ∨ ∃ e s', m s (.error e s') ∧ r = .error e s'

namespace Sem

@[simp] theorem pure_iff {a : α} {s : σ} {r : Outcome ε σ α} :
    (pure a : Sem ε σ α) s r ↔ r = .ok a s := Iff.rfl

theorem bind_iff {m : Sem ε σ α} {f : α → Sem ε σ β} {s : σ} {r : Outcome ε σ β} :
    (m >>= f) s r ↔
      (∃ a s', m s (.ok a s') ∧ f a s' r) ∨ ∃ e s', m s (.error e s') ∧ r = .error e s' :=
  Iff.rfl

theorem bind_ok {m : Sem ε σ α} {f : α → Sem ε σ β} {s s' : σ} {a : α} {r : Outcome ε σ β}
    (h : m s (.ok a s')) (hf : f a s' r) : (m >>= f) s r := .inl ⟨a, s', h, hf⟩

theorem bind_ok_iff {m : Sem ε σ α} {f : α → Sem ε σ β} {s s' : σ} {b : β} :
    (m >>= f) s (.ok b s') ↔ ∃ a s₁, m s (.ok a s₁) ∧ f a s₁ (.ok b s') := by
  rw [bind_iff]
  simp

/-- A sequence with an outcome has one for its first part. -/
theorem exists_of_bind {m : Sem ε σ α} {f : α → Sem ε σ β} {s : σ} {r : Outcome ε σ β}
    (h : (m >>= f) s r) : ∃ r', m s r' := by
  rcases h with ⟨a, s', h, -⟩ | ⟨e, s', h, -⟩
  · exact ⟨_, h⟩
  · exact ⟨_, h⟩

theorem bind_error {m : Sem ε σ α} {f : α → Sem ε σ β} {s s' : σ} {e : ε}
    (h : m s (.error e s')) : (m >>= f) s (.error e s') := .inr ⟨e, s', h, rfl⟩

instance : LawfulMonad (Sem ε σ) := LawfulMonad.mk' (Sem ε σ)
  (by
    intro α m
    ext s r
    show (∃ a s', m s (.ok a s') ∧ r = .ok (id a) s') ∨ _ ↔ _
    cases r <;> simp)
  (by
    intro α β a f
    ext s r
    show (∃ a' s', (EStateM.Result.ok a' s' : Outcome ε σ α) = .ok a s ∧ f a' s' r) ∨
      (∃ e s', (EStateM.Result.error e s' : Outcome ε σ α) = .ok a s ∧ _) ↔ _
    simp)
  (by
    intro α β γ m f g
    ext s r
    simp only [bind_iff]
    constructor
    · rintro (⟨b, s₂, (⟨a, s₁, hm, hf⟩ | ⟨e, s₁, hm, he⟩), hg⟩ |
        ⟨e, s₂, (⟨a, s₁, hm, hf⟩ | ⟨e', s₁, hm, he⟩), rfl⟩)
      · exact .inl ⟨a, s₁, hm, .inl ⟨b, s₂, hf, hg⟩⟩
      · cases he
      · exact .inl ⟨a, s₁, hm, .inr ⟨e, s₂, hf, rfl⟩⟩
      · cases he
        exact .inr ⟨e, s₂, hm, rfl⟩
    · rintro (⟨a, s₁, hm, (⟨b, s₂, hf, hg⟩ | ⟨e, s₂, hf, rfl⟩)⟩ | ⟨e, s₁, hm, rfl⟩)
      · exact .inl ⟨b, s₂, .inl ⟨a, s₁, hm, hf⟩, hg⟩
      · exact .inr ⟨e, s₂, .inl ⟨a, s₁, hm, hf⟩, rfl⟩
      · exact .inr ⟨e, s₁, .inr ⟨e, s₁, hm, rfl⟩, rfl⟩)

/-- At most one outcome from each state. -/
def Functional (m : Sem ε σ α) : Prop := ∀ s r r', m s r → m s r' → r = r'

theorem Functional.bind_of_ok {m : Sem ε σ α} (hm : m.Functional) {s s' : σ} {a : α}
    (h : m s (.ok a s')) (f : α → Sem ε σ β) : (m >>= f) s = f a s' := by
  funext r
  refine propext ⟨?_, fun hf => bind_ok h hf⟩
  rintro (⟨a', s₁, h', hf⟩ | ⟨e, s₁, h', rfl⟩)
  · cases hm s _ _ h h'
    exact hf
  · cases hm s _ _ h h'

end Sem

/-- The outcomes of one computation, forgetting that it may be short of fuel. -/
def ends (x : Comp ε σ α) : Sem ε σ α := fun s r => x s = embed r

theorem ends_iff {x : Comp ε σ α} {s : σ} {r : Outcome ε σ α} :
    ends x s r ↔ x s = embed r := Iff.rfl

@[simp] theorem ends_pure (a : α) : ends (pure a : Comp ε σ α) = pure a := by
  ext s r
  simp [ends_iff]

@[simp] theorem ends_fail (e : ε) :
    ends (Comp.fail e : Comp ε σ α) = fun s r => r = .error e s := by
  ext s r
  simp [ends_iff]

theorem ends_bind (x : Comp ε σ α) (f : α → Comp ε σ β) :
    ends (x >>= f) = ends x >>= fun a => ends (f a) := by
  ext s r
  rw [ends_iff, Comp.bind_eq_embed_iff, Sem.bind_iff]
  simp only [ends_iff, embed_ok, embed_error]

theorem ends_functional (x : Comp ε σ α) : (ends x).Functional := by
  intro s r r' h h'
  exact embed_injective (h.symm.trans h')

/-- A computation whose result is known may be taken off the front. -/
theorem ends_bind_of_ok {x : Comp ε σ α} {s s' : σ} {a : α} (h : x s = .ok a s')
    (f : α → Sem ε σ β) : (ends x >>= f) s = f a s' := (ends_functional x).bind_of_ok h f

@[simp] theorem ends_map (f : α → β) (x : Comp ε σ α) : ends (f <$> x) = f <$> ends x := by
  rw [← bind_pure_comp, ← bind_pure_comp, ends_bind]
  simp only [ends_pure]

/-- The outcomes reached with some amount of fuel. -/
def lim (f : Nat → Comp ε σ α) : Sem ε σ α := fun s r => ∃ n, f n s = embed r

/-- More fuel does not change an outcome. -/
def Chain (f : Nat → Comp ε σ α) : Prop := ∀ ⦃n m : Nat⦄, n ≤ m → Comp.Le (f n) (f m)

theorem Chain.of_succ {f : Nat → Comp ε σ α} (h : ∀ n, Comp.Le (f n) (f (n + 1))) : Chain f := by
  intro n m hnm
  induction hnm with
  | refl => exact .refl _
  | step _ ih => exact ih.trans (h _)

theorem Chain.const (x : Comp ε σ α) : Chain fun _ => x := fun _ _ _ => .refl x

theorem Chain.bind {f : Nat → Comp ε σ α} {g : Nat → α → Comp ε σ β}
    (hf : Chain f) (hg : ∀ a, Chain fun n => g n a) : Chain fun n => f n >>= g n :=
  fun _ _ hnm => (hf hnm).bind fun a => hg a hnm

theorem Chain.functional {f : Nat → Comp ε σ α} (hf : Chain f) : (lim f).Functional := by
  rintro s r r' ⟨n, hn⟩ ⟨m, hm⟩
  have h := hf (le_max_left n m) s r hn
  have h' := hf (le_max_right n m) s r' hm
  exact embed_injective (h.symm.trans h')

/-- The computation ends in a state with the property. -/
def endsIn (p : σ → Prop) [DecidablePred p] : EStateM.Result (Stop ε) σ Unit → Bool
  | .ok _ s => decide (p s)
  | .error _ _ => false

/-- A result found by evaluation. -/
theorem lim_of_endsIn {f : Nat → Comp ε σ Unit} {s : σ} {p : σ → Prop} [DecidablePred p] (n : Nat)
    (h : endsIn p (f n s) = true) : ∃ s', lim f s (.ok () s') ∧ p s' := by
  cases hs : f n s with
  | ok _ s' =>
    rw [hs] at h
    exact ⟨s', ⟨n, hs⟩, of_decide_eq_true h⟩
  | error _ s' =>
    rw [hs] at h
    cases h

theorem lim_const (x : Comp ε σ α) : lim (fun _ => x) = ends x := by
  ext s r
  exact ⟨fun ⟨_, h⟩ => h, fun h => ⟨0, h⟩⟩

theorem lim_succ {f : Nat → Comp ε σ α} (hf : Chain f) : lim (fun n => f (n + 1)) = lim f := by
  ext s r
  exact ⟨fun ⟨n, h⟩ => ⟨n + 1, h⟩, fun ⟨n, h⟩ => ⟨n, hf (Nat.le_succ n) s r h⟩⟩

theorem lim_bind {f : Nat → Comp ε σ α} {g : Nat → α → Comp ε σ β}
    (hf : Chain f) (hg : ∀ a, Chain fun n => g n a) :
    lim (fun n => f n >>= g n) = lim f >>= fun a => lim fun n => g n a := by
  ext s r
  constructor
  · rintro ⟨n, hn⟩
    rw [Comp.bind_eq_embed_iff] at hn
    obtain ⟨a, s', hx, hr⟩ | ⟨e, s', hx, rfl⟩ := hn
    · exact Sem.bind_ok ⟨n, hx⟩ ⟨n, hr⟩
    · exact Sem.bind_error ⟨n, hx⟩
  · rintro (⟨a, s', ⟨n, hn⟩, ⟨m, hm⟩⟩ | ⟨e, s', ⟨n, hn⟩, rfl⟩)
    · refine ⟨max n m, Comp.bind_eq_embed_iff.mpr (.inl ⟨a, s', ?_, ?_⟩)⟩
      · exact hf (le_max_left n m) s (.ok a s') hn
      · exact hg a (le_max_right n m) s' r hm
    · exact ⟨n, Comp.bind_eq_embed_iff.mpr (.inr ⟨e, s', hn, rfl⟩)⟩

/-! ## Counted loops -/

/-- `x` run `n` times in a row. -/
def repeatM {M : Type → Type} [Monad M] (x : M Unit) : Nat → M Unit
  | 0 => pure ()
  | n + 1 => x >>= fun _ => repeatM x n

@[simp] theorem repeatM_zero {M : Type → Type} [Monad M] (x : M Unit) :
    repeatM x 0 = pure () := rfl

theorem repeatM_succ {M : Type → Type} [Monad M] (x : M Unit) (n : Nat) :
    repeatM x (n + 1) = x >>= fun _ => repeatM x n := rfl

theorem repeatM_succ_right {M : Type → Type} [Monad M] [LawfulMonad M] (x : M Unit) (n : Nat) :
    repeatM x (n + 1) = repeatM x n >>= fun _ => x := by
  induction n with
  | zero => simp [repeatM_succ]
  | succ n ih =>
    calc repeatM x (n + 2) = x >>= fun _ => repeatM x n >>= fun _ => x := by rw [repeatM_succ, ih]
      _ = repeatM x (n + 1) >>= fun _ => x := by rw [repeatM_succ, bind_assoc]

/-- A body that comes back to a state does so in every round. -/
theorem repeatM_eq_of_fixed {m : Sem ε σ Unit} (hm : m.Functional) {s s' : σ} {n : Nat}
    (hs : m s (.ok () s)) (h : repeatM m n s (.ok () s')) : s' = s := by
  induction n with
  | zero =>
    cases h
    rfl
  | succ n ih =>
    rcases h with ⟨_, s₁, h₁, h⟩ | ⟨_, _, _, heq⟩
    · cases hm _ _ _ hs h₁
      exact ih h
    · cases heq

/-- A loop that fails fails in one of its rounds. -/
theorem repeatM_error {m : Sem ε σ Unit} {n : Nat} {s s' : σ} {e : ε}
    (h : repeatM m n s (.error e s')) :
    ∃ k < n, ∃ s₁, repeatM m k s (.ok () s₁) ∧ m s₁ (.error e s') := by
  induction n with
  | zero => cases h
  | succ n ih =>
    rw [repeatM_succ_right] at h
    rcases h with ⟨_, s₁, h₁, h₂⟩ | ⟨e, s₁, h₁, heq⟩
    · exact ⟨n, Nat.lt_succ_self n, s₁, h₁, h₂⟩
    · cases heq
      obtain ⟨k, hk, h⟩ := ih h₁
      exact ⟨k, hk.trans (Nat.lt_succ_self n), h⟩

theorem Comp.Le.repeatM {x y : Comp ε σ Unit} (h : Comp.Le x y) (k : Nat) :
    Comp.Le (Partial.repeatM x k) (Partial.repeatM y k) := by
  induction k with
  | zero => exact .refl _
  | succ k ih => exact h.bind fun _ => ih

theorem Chain.repeatM {f : Nat → Comp ε σ Unit} (hf : Chain f) (k : Nat) :
    Chain fun n => Partial.repeatM (f n) k := fun _ _ hnm => (hf hnm).repeatM k

theorem lim_repeatM {f : Nat → Comp ε σ Unit} (hf : Chain f) (k : Nat) :
    lim (fun n => repeatM (f n) k) = repeatM (lim f) k := by
  induction k with
  | zero => exact (lim_const _).trans (ends_pure _)
  | succ k ih =>
    simp only [repeatM_succ]
    rw [lim_bind hf fun _ => hf.repeatM k, ih]

/-! ## Unbounded loops -/

/-- `while test { body }`, at most `n` times around. -/
def whileFuel (test : Comp ε σ Bool) (body : Comp ε σ Unit) : Nat → Comp ε σ Unit
  | 0 => Comp.outOfFuel
  | n + 1 => test >>= fun b =>
      if b then body >>= fun _ => whileFuel test body n else pure ()

/-- The outcomes of `while test { body }`. -/
inductive Sem.whileDo (test : Sem ε σ Bool) (body : Sem ε σ Unit) : Sem ε σ Unit
  | stop {s s' : σ} : test s (.ok false s') → whileDo test body s (.ok () s')
  | testFault {s s' : σ} {e : ε} : test s (.error e s') → whileDo test body s (.error e s')
  | bodyFault {s s₁ s' : σ} {e : ε} : test s (.ok true s₁) → body s₁ (.error e s') →
      whileDo test body s (.error e s')
  | again {s s₁ s₂ : σ} {r : Outcome ε σ Unit} : test s (.ok true s₁) → body s₁ (.ok () s₂) →
      whileDo test body s₂ r → whileDo test body s r

theorem Sem.whileDo_unfold (test : Sem ε σ Bool) (body : Sem ε σ Unit) :
    Sem.whileDo test body = test >>= fun b =>
      if b then body >>= fun _ => Sem.whileDo test body else pure () := by
  ext s r
  constructor
  · intro h
    cases h with
    | stop ht => exact Sem.bind_ok ht (by simp)
    | testFault ht => exact Sem.bind_error ht
    | bodyFault ht hb => exact Sem.bind_ok ht (by simpa using Sem.bind_error hb)
    | again ht hb hw => exact Sem.bind_ok ht (by simpa using Sem.bind_ok hb hw)
  · rintro (⟨b, s', ht, h⟩ | ⟨e, s', ht, rfl⟩)
    · cases b with
      | false =>
        rw [if_neg Bool.false_ne_true, Sem.pure_iff] at h
        exact h ▸ .stop ht
      | true =>
        rw [if_pos rfl] at h
        obtain ⟨_, s₂, hb, hw⟩ | ⟨e, s₂, hb, rfl⟩ := h
        · exact .again ht hb hw
        · exact .bodyFault ht hb
    · exact .testFault ht

/-- A loop whose test always succeeds, and whose parts keep `I` and do not fail, has no outcome. -/
theorem Sem.whileDo_diverges {test : Sem ε σ Bool} {body : Sem ε σ Unit} {I : σ → Prop}
    (ht : ∀ s r, I s → test s r → ∃ s', r = .ok true s' ∧ I s')
    (hb : ∀ s r, I s → body s r → ∃ s', r = .ok () s' ∧ I s') {s : σ} (hs : I s)
    (r : Outcome ε σ Unit) : ¬ Sem.whileDo test body s r := by
  intro h
  induction h with
  | stop h =>
    obtain ⟨_, h', _⟩ := ht _ _ hs h
    cases h'
  | testFault h =>
    obtain ⟨_, h', _⟩ := ht _ _ hs h
    cases h'
  | bodyFault h hbody =>
    obtain ⟨_, h', hs'⟩ := ht _ _ hs h
    cases h'
    obtain ⟨_, h', _⟩ := hb _ _ hs' hbody
    cases h'
  | again h hbody _ ih =>
    obtain ⟨_, h', hs'⟩ := ht _ _ hs h
    cases h'
    obtain ⟨_, h', hs''⟩ := hb _ _ hs' hbody
    cases h'
    exact ih hs''

/-- Both the bound on the iterations and the parts may grow. -/
theorem Comp.Le.whileFuel {t t' : Comp ε σ Bool} {b b' : Comp ε σ Unit} (ht : Comp.Le t t')
    (hb : Comp.Le b b') {k l : Nat} (hkl : k ≤ l) :
    Comp.Le (Partial.whileFuel t b k) (Partial.whileFuel t' b' l) := by
  induction k generalizing l with
  | zero => exact .outOfFuel _
  | succ k ih =>
    obtain ⟨l, rfl⟩ : ∃ l', l = l' + 1 := ⟨l - 1, by omega⟩
    refine ht.bind fun c => ?_
    cases c with
    | false => exact .refl _
    | true => exact hb.bind fun _ => ih (by omega)

section whileLoop
variable {t : Nat → Comp ε σ Bool} {b : Nat → Comp ε σ Unit}

theorem Chain.whileFuel (ht : Chain t) (hb : Chain b) :
    Chain fun n => Partial.whileFuel (t n) (b n) n :=
  fun _ _ hnm => (ht hnm).whileFuel (hb hnm) hnm

theorem whileFuel_sound {n k : Nat} {s : σ} {r : Outcome ε σ Unit}
    (h : whileFuel (t n) (b n) k s = embed r) : Sem.whileDo (lim t) (lim b) s r := by
  induction k generalizing s with
  | zero => exact absurd h fuel_ne_embed
  | succ k ih =>
    rw [whileFuel, Comp.bind_eq_embed_iff] at h
    obtain ⟨c, s₁, htest, h⟩ | ⟨e, s₁, htest, rfl⟩ := h
    · cases c with
      | false => exact (embed_eq_ok.mp h) ▸ .stop ⟨n, htest⟩
      | true =>
        rw [if_pos rfl, Comp.bind_eq_embed_iff] at h
        obtain ⟨_, s₂, hbody, h⟩ | ⟨e, s₂, hbody, rfl⟩ := h
        · exact .again ⟨n, htest⟩ ⟨n, hbody⟩ (ih h)
        · exact .bodyFault ⟨n, htest⟩ ⟨n, hbody⟩
    · exact .testFault ⟨n, htest⟩

theorem lim_whileFuel (ht : Chain t) (hb : Chain b) :
    lim (fun n => whileFuel (t n) (b n) n) = Sem.whileDo (lim t) (lim b) := by
  ext s r
  refine ⟨fun ⟨n, h⟩ => whileFuel_sound h, fun h => ?_⟩
  induction h with
  | @stop s s' htest =>
    obtain ⟨n, hn⟩ := htest
    refine ⟨n + 1, ?_⟩
    simp only [whileFuel]
    rw [Comp.bind_of_ok (ht (Nat.le_succ n) s (.ok false s') hn)]
    rfl
  | @testFault s s' e htest =>
    obtain ⟨n, hn⟩ := htest
    refine ⟨n + 1, ?_⟩
    simp only [whileFuel]
    rw [Comp.bind_of_error (ht (Nat.le_succ n) s (.error e s') hn)]
    rfl
  | @bodyFault s s₁ s' e htest hbody =>
    obtain ⟨n, hn⟩ := htest
    obtain ⟨m, hm⟩ := hbody
    refine ⟨max n m + 1, ?_⟩
    simp only [whileFuel]
    rw [Comp.bind_of_ok (ht (by omega : n ≤ max n m + 1) s (.ok true s₁) hn),
      if_pos rfl, Comp.bind_of_error (hb (by omega : m ≤ max n m + 1) s₁ (.error e s') hm)]
    rfl
  | @again s s₁ s₂ r htest hbody _ ih =>
    obtain ⟨n, hn⟩ := htest
    obtain ⟨m, hm⟩ := hbody
    obtain ⟨k, hk⟩ := ih
    refine ⟨max (max n m) k + 1, ?_⟩
    simp only [whileFuel]
    rw [Comp.bind_of_ok (ht (by omega : n ≤ _) s (.ok true s₁) hn), if_pos rfl,
      Comp.bind_of_ok (hb (by omega : m ≤ _) s₁ (.ok () s₂) hm)]
    exact (ht (by omega : k ≤ _)).whileFuel (hb (by omega : k ≤ _)) (le_max_right _ k) _ _ hk

end whileLoop

/-! ## Convergence -/

/-- The chain `f` computes `m` in the limit. -/
structure Tends (f : Nat → Comp ε σ α) (m : Sem ε σ α) : Prop where
  chain : Chain f
  lim_eq : lim f = m

theorem Tends.const (x : Comp ε σ α) : Tends (fun _ => x) (ends x) := ⟨.const x, lim_const x⟩

theorem Tends.pure (a : α) : Tends (fun _ => (Pure.pure a : Comp ε σ α)) (Pure.pure a) :=
  ⟨.const _, (lim_const _).trans (ends_pure a)⟩

theorem Tends.bind {f : Nat → Comp ε σ α} {g : Nat → α → Comp ε σ β} {m : Sem ε σ α}
    {k : α → Sem ε σ β} (hf : Tends f m) (hg : ∀ a, Tends (fun n => g n a) (k a)) :
    Tends (fun n => f n >>= g n) (m >>= k) where
  chain := hf.chain.bind fun a => (hg a).chain
  lim_eq := by
    rw [lim_bind hf.chain fun a => (hg a).chain, hf.lim_eq]
    exact congrArg (m >>= ·) (funext fun a => (hg a).lim_eq)

theorem Tends.repeatM {f : Nat → Comp ε σ Unit} {m : Sem ε σ Unit} (hf : Tends f m) (k : Nat) :
    Tends (fun n => Partial.repeatM (f n) k) (Partial.repeatM m k) :=
  ⟨hf.chain.repeatM k, by rw [lim_repeatM hf.chain, hf.lim_eq]⟩

theorem Tends.whileFuel {t : Nat → Comp ε σ Bool} {b : Nat → Comp ε σ Unit} {test : Sem ε σ Bool}
    {body : Sem ε σ Unit} (ht : Tends t test) (hb : Tends b body) :
    Tends (fun n => Partial.whileFuel (t n) (b n) n) (Sem.whileDo test body) :=
  ⟨ht.chain.whileFuel hb.chain, by rw [lim_whileFuel ht.chain hb.chain, ht.lim_eq, hb.lim_eq]⟩

theorem Tends.functional {f : Nat → Comp ε σ α} {m : Sem ε σ α} (h : Tends f m) :
    m.Functional := h.lim_eq ▸ h.chain.functional

theorem Tends.succ {f : Nat → Comp ε σ α} {m : Sem ε σ α}
    (hf : Chain f) (h : Tends (fun n => f (n + 1)) m) : lim f = m :=
  (lim_succ hf).symm.trans h.lim_eq

end Covm.Partial
