import Covm.Partial.Machine

/-!
# Progress of a machine

`Comes I Q s`: from `s` the machine comes to a state of `Q`, and stands in `I` until then, or else it
faults on the way. Such facts are chained (`Comes.bind`), a loop comes to its end if every round
makes something smaller (`comes_of_acc`), and a machine that comes to a halted state has an outcome
(`Comes.outcome`). `Carries` is the same for a computation on the data of a located machine.
-/

namespace Covm.Partial

variable {ε ς κ σ α β : Type}

namespace Machine

variable (M : Machine ε ς)

/-- The machine goes from one state to the other, and stands in `I` until then. -/
def Passes (I : ς → Prop) : ς → ς → Prop := Relation.ReflTransGen fun s t => I s ∧ M.Step s t

inductive Comes (I Q : ς → Prop) : ς → Prop
  | here {s : ς} : Q s → Comes I Q s
  | fault {s t : ς} {e : ε} : M.Faults s e t → Comes I Q s
  | step {s t : ς} : I s → M.Step s t → Comes I Q t → Comes I Q s

variable {M} {I I' Q Q' : ς → Prop} {s t : ς}

theorem Passes.reaches (h : M.Passes I s t) : M.Reaches s t := by
  induction h with
  | refl => exact .refl
  | tail _ hst ih => exact ih.tail hst.2

theorem Passes.mono (h : M.Passes I s t) (hI : ∀ u, I u → I' u) : M.Passes I' s t := by
  induction h with
  | refl => exact .refl
  | tail _ hst ih => exact ih.tail ⟨hI _ hst.1, hst.2⟩

theorem Comes.head (h : M.Passes I s t) (ht : M.Comes I Q t) : M.Comes I Q s := by
  induction h using Relation.ReflTransGen.head_induction_on with
  | refl => exact ht
  | head hst _ ih => exact .step hst.1 hst.2 ih

theorem Comes.mono (h : M.Comes I Q s) (hI : ∀ u, I u → I' u) (hQ : ∀ u, Q u → Q' u) :
    M.Comes I' Q' s := by
  induction h with
  | here hs => exact .here (hQ _ hs)
  | fault hf => exact .fault hf
  | step hs hst _ ih => exact .step (hI _ hs) hst ih

/-- What is reached first is reached from `s`, through `I`. -/
theorem Comes.passes (h : M.Comes I Q s) : M.Comes I (fun t => M.Passes I s t ∧ Q t) s := by
  induction h with
  | here hs => exact .here ⟨.refl, hs⟩
  | fault hf => exact .fault hf
  | step hs hst _ ih =>
    exact .step hs hst (ih.mono (fun _ hu => hu) fun _ hu => ⟨.head ⟨hs, hst⟩ hu.1, hu.2⟩)

theorem Comes.trans (h : M.Comes I Q s) (hQ : ∀ t, Q t → M.Comes I Q' t) : M.Comes I Q' s := by
  induction h with
  | here hs => exact hQ _ hs
  | fault hf => exact .fault hf
  | step hs hst _ ih => exact .step hs hst ih

/-- A part of the way, and then the rest of it. -/
theorem Comes.bind (h : M.Comes I Q s) (hI : ∀ u, I u → I' u)
    (hQ : ∀ t, M.Passes I s t → Q t → M.Comes I' Q' t) : M.Comes I' Q' s :=
  (h.passes.mono hI fun _ hu => hu).trans fun t ht => hQ t ht.1 ht.2

/-- Every round of a loop ends it or makes something smaller. -/
theorem comes_of_acc {μ : Type} {r : μ → μ → Prop} (level : ς → μ → Prop)
    (hround : ∀ s m, level s m → M.Comes I (fun t => Q t ∨ ∃ m', r m' m ∧ level t m') s) {m : μ}
    (hm : Acc r m) (hs : level s m) : M.Comes I Q s := by
  induction hm generalizing s with
  | intro m _ ih =>
    refine (hround s m hs).trans fun t ht => ?_
    obtain ht | ⟨m', hless, ht⟩ := ht
    · exact .here ht
    · exact ih m' hless ht

/-- Where it halts, the machine has an outcome. -/
theorem Comes.outcome (h : M.Comes I Q s) (hQ : ∀ t, Q t → M.running t = false) :
    ∃ r, M.outcome s r := by
  induction h with
  | here hs => exact ⟨_, 0, .halt (hQ _ hs)⟩
  | fault hf => exact ⟨_, 0, .fault hf⟩
  | step _ hst _ ih =>
    obtain ⟨r, hr⟩ := ih
    exact ⟨r, Reaches.outcome (.single hst) hr⟩

/-! ## Computations on the data -/

variable (L : Located M κ σ)

/-- From location `p` the machine carries out `x` within `I`; a result `a` is left at `k a`. -/
structure Carries (I : ς → Prop) (p : κ) (x : Comp ε σ α) (k : α → κ) : Prop where
  definite : x.Definite
  ok : ∀ {s a s'}, x s = .ok a s' → M.Passes I (L.loc p s) (L.loc (k a) s')
  error : ∀ {s e s'}, x s = .error (.fault e) s' →
    ∃ t u, M.Passes I (L.loc p s) t ∧ M.Faults t e u

variable {L} {p : κ}

theorem Carries.bind {x : Comp ε σ α} {k : α → κ} {f : α → Comp ε σ β} {k' : β → κ}
    (hx : Carries L I p x k) (hf : ∀ a, Carries L I (k a) (f a) k') :
    Carries L I p (x >>= f) k' where
  definite := hx.definite.bind fun a => (hf a).definite
  ok h := by
    obtain ⟨a, s', hxs, hfs⟩ := Comp.bind_eq_ok_iff.mp h
    exact (hx.ok hxs).trans ((hf a).ok hfs)
  error {s e s'} h := by
    rw [Comp.bind_apply] at h
    cases hxs : x s with
    | ok a s₁ =>
      rw [hxs] at h
      obtain ⟨t, u, ht, hu⟩ := (hf a).error h
      exact ⟨t, u, (hx.ok hxs).trans ht, hu⟩
    | error e' s₁ =>
      rw [hxs] at h
      cases h
      exact hx.error hxs

/-- What one step carries out. -/
theorem Carries.step {x : Comp ε σ α} {k : α → κ} (hI : ∀ s, I (L.loc p s))
    (hrun : ∀ s, M.running (L.loc p s) = true) (hx : x.Definite)
    (hok : ∀ s a s', x s = .ok a s' → M.step (L.loc p s) = .ok () (L.loc (k a) s'))
    (herr : ∀ s e s', x s = .error (.fault e) s' →
      ∃ u, M.step (L.loc p s) = .error (.fault e) u) : Carries L I p x k where
  definite := hx
  ok h := .single ⟨hI _, hrun _, hok _ _ _ h⟩
  error h := by
    obtain ⟨u, hu⟩ := herr _ _ _ h
    exact ⟨_, u, .refl, hrun _, hu⟩

/-- A computation is carried out, and then comes the rest of the way. -/
theorem Carries.comes {x : Comp ε σ α} {k : α → κ} (h : Carries L I p x k) {s : σ}
    (hok : ∀ a s', x s = .ok a s' → M.Comes I Q (L.loc (k a) s')) : M.Comes I Q (L.loc p s) := by
  cases hx : x s with
  | ok a s' => exact .head (h.ok hx) (hok a s' hx)
  | error e s' =>
    cases e with
    | fuel => exact absurd hx (h.definite s s')
    | fault e =>
      obtain ⟨t, u, ht, hu⟩ := h.error hx
      exact .head ht (.fault hu)

end Machine

end Covm.Partial
