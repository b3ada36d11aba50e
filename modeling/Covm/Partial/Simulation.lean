import Covm.Partial.Basic

/-!
# Simulations between partial computations

`Sim B E P Q m m'` relates two computations on different states: started in states related by `P`,
they have corresponding outcomes, that is the same result in states related by `Q`, or the same
error in states related by `E`. Both directions are part of it, so one diverges exactly if the
other does. The first computation may also *escape* with an error in `B`; then nothing is said
about the second.

There is one rule for each way to build a computation: `Sim.bind`, `Sim.repeatM`, `Sim.whileDo`,
steps of one side only (`Sim.left`, `Sim.right`), and `Sim.countdown` for a counted loop that is
implemented by an unbounded one.
-/

namespace Covm.Partial

variable {ε σ τ α β : Type}

/-- The same result in states related by `Q`, or the same error in states related by `E`. -/
inductive Corresponds (E : σ → τ → Prop) (Q : α → σ → τ → Prop) :
    Outcome ε σ α → Outcome ε τ α → Prop
  | ok {a : α} {s : σ} {t : τ} : Q a s t → Corresponds E Q (.ok a s) (.ok a t)
  | error {e : ε} {s : σ} {t : τ} : E s t → Corresponds E Q (.error e s) (.error e t)

/-- The outcome is an error in `B`. -/
inductive Escapes (B : ε → Prop) : Outcome ε σ α → Prop
  | intro {e : ε} {s : σ} : B e → Escapes B (.error e s)

structure Sim (B : ε → Prop) (E : σ → τ → Prop) (P : σ → τ → Prop) (Q : α → σ → τ → Prop)
    (m : Sem ε σ α) (m' : Sem ε τ α) : Prop where
  forth : ∀ {s t}, P s t → ∀ {r}, m s r → Escapes B r ∨ ∃ r', m' t r' ∧ Corresponds E Q r r'
  back : ∀ {s t}, P s t → ∀ {r'}, m' t r' → ∃ r, m s r ∧ (Escapes B r ∨ Corresponds E Q r r')

namespace Sim

variable {B : ε → Prop} {E P P' I : σ → τ → Prop} {Q Q' : α → σ → τ → Prop}
  {T : β → σ → τ → Prop} {m : Sem ε σ α} {m' : Sem ε τ α}

theorem pure {a : α} (h : ∀ s t, P s t → Q a s t) : Sim B E P Q (Pure.pure a) (Pure.pure a) where
  forth hp r hr := by
    cases hr
    exact .inr ⟨_, rfl, .ok (h _ _ hp)⟩
  back hp r hr := by
    cases hr
    exact ⟨_, rfl, .inr (.ok (h _ _ hp))⟩

theorem bind {f : α → Sem ε σ β} {f' : α → Sem ε τ β} (h : Sim B E P Q m m')
    (hf : ∀ a, Sim B E (Q a) T (f a) (f' a)) : Sim B E P T (m >>= f) (m' >>= f') where
  forth hp r hr := by
    rcases hr with ⟨a, s₁, h₁, hr⟩ | ⟨e, s₁, h₁, rfl⟩
    · rcases h.forth hp h₁ with hesc | ⟨r₁, h₁', hcor⟩
      · cases hesc
      · cases hcor with
        | ok hq =>
          rcases (hf a).forth hq hr with hesc | ⟨r', hr', hcor⟩
          · exact .inl hesc
          · exact .inr ⟨r', Sem.bind_ok h₁' hr', hcor⟩
    · rcases h.forth hp h₁ with hesc | ⟨r₁, h₁', hcor⟩
      · cases hesc with | intro hb => exact .inl (.intro hb)
      · cases hcor with | error he => exact .inr ⟨_, Sem.bind_error h₁', .error he⟩
  back hp r' hr' := by
    rcases hr' with ⟨a, t₁, h₁, hr'⟩ | ⟨e, t₁, h₁, rfl⟩
    · obtain ⟨r₁, h₁', hesc | hcor⟩ := h.back hp h₁
      · cases hesc with | intro hb => exact ⟨_, Sem.bind_error h₁', .inl (.intro hb)⟩
      · cases hcor with
        | ok hq =>
          obtain ⟨r, hr, hcor⟩ := (hf a).back hq hr'
          exact ⟨r, Sem.bind_ok h₁' hr, hcor⟩
    · obtain ⟨r₁, h₁', hesc | hcor⟩ := h.back hp h₁
      · cases hesc with | intro hb => exact ⟨_, Sem.bind_error h₁', .inl (.intro hb)⟩
      · cases hcor with | error he => exact ⟨_, Sem.bind_error h₁', .inr (.error he)⟩

/-- The rule of consequence. The simulation may be chosen after the related states are known. -/
theorem conseq (h : ∀ s t, P' s t → ∃ P Q, Sim B E P Q m m' ∧ P s t ∧
    ∀ a s t, Q a s t → Q' a s t) : Sim B E P' Q' m m' where
  forth hp r hr := by
    obtain ⟨P, Q, hsim, hp, hq⟩ := h _ _ hp
    rcases hsim.forth hp hr with hesc | ⟨r', hr', hcor⟩
    · exact .inl hesc
    · refine .inr ⟨r', hr', ?_⟩
      cases hcor with
      | ok h => exact .ok (hq _ _ _ h)
      | error he => exact .error he
  back hp r' hr' := by
    obtain ⟨P, Q, hsim, hp, hq⟩ := h _ _ hp
    obtain ⟨r, hr, hesc | hcor⟩ := hsim.back hp hr'
    · exact ⟨r, hr, .inl hesc⟩
    · refine ⟨r, hr, .inr ?_⟩
      cases hcor with
      | ok h => exact .ok (hq _ _ _ h)
      | error he => exact .error he

theorem mono (h : Sim B E P Q m m') (hp : ∀ s t, P' s t → P s t)
    (hq : ∀ a s t, Q a s t → Q' a s t) : Sim B E P' Q' m m' :=
  conseq fun s t hst => ⟨P, Q, h, hp s t hst, hq⟩

theorem mono_error {E' : σ → τ → Prop} (h : Sim B E P Q m m') (he : ∀ s t, E s t → E' s t) :
    Sim B E' P Q m m' where
  forth hp r hr := by
    rcases h.forth hp hr with hesc | ⟨r', hr', hcor⟩
    · exact .inl hesc
    · refine .inr ⟨r', hr', ?_⟩
      cases hcor with
      | ok hq => exact .ok hq
      | error hst => exact .error (he _ _ hst)
  back hp r' hr' := by
    obtain ⟨r, hr, hesc | hcor⟩ := h.back hp hr'
    · exact ⟨r, hr, .inl hesc⟩
    · refine ⟨r, hr, .inr ?_⟩
      cases hcor with
      | ok hq => exact .ok hq
      | error hst => exact .error (he _ _ hst)

/-- A step of the first side only. -/
theorem left {x : Sem ε σ β} {f : β → Sem ε σ α} {b : β} {R : σ → τ → Prop}
    (hx : ∀ s t, P s t → ∃ s', (∀ r, x s r ↔ r = .ok b s') ∧ R s' t)
    (h : Sim B E R Q (f b) m') : Sim B E P Q (x >>= f) m' where
  forth hp r hr := by
    obtain ⟨s', hx, hp'⟩ := hx _ _ hp
    rcases hr with ⟨a, s₁, h₁, hr⟩ | ⟨e, s₁, h₁, rfl⟩
    · cases (hx _).mp h₁
      exact h.forth hp' hr
    · cases (hx _).mp h₁
  back hp r' hr' := by
    obtain ⟨s', hx, hp'⟩ := hx _ _ hp
    obtain ⟨r, hr, hcor⟩ := h.back hp' hr'
    exact ⟨r, Sem.bind_ok ((hx _).mpr rfl) hr, hcor⟩

/-- A step of the second side only. -/
theorem right {x : Sem ε τ β} {f : β → Sem ε τ α} {b : β} {R : σ → τ → Prop}
    (hx : ∀ s t, P s t → ∃ t', (∀ r, x t r ↔ r = .ok b t') ∧ R s t')
    (h : Sim B E R Q m (f b)) : Sim B E P Q m (x >>= f) where
  forth hp r hr := by
    obtain ⟨t', hx, hp'⟩ := hx _ _ hp
    rcases h.forth hp' hr with hesc | ⟨r', hr', hcor⟩
    · exact .inl hesc
    · exact .inr ⟨r', Sem.bind_ok ((hx _).mpr rfl) hr', hcor⟩
  back hp r' hr' := by
    obtain ⟨t', hx, hp'⟩ := hx _ _ hp
    rcases hr' with ⟨a, t₁, h₁, hr'⟩ | ⟨e, t₁, h₁, rfl⟩
    · cases (hx _).mp h₁
      exact h.back hp' hr'
    · cases (hx _).mp h₁

/-! ### Single computations -/

/-- The results of two computations correspond, or the first one escapes. -/
inductive Results (B : ε → Prop) (E : σ → τ → Prop) (Q : α → σ → τ → Prop) :
    EStateM.Result (Stop ε) σ α → EStateM.Result (Stop ε) τ α → Prop
  | ok {a : α} {s : σ} {t : τ} : Q a s t → Results B E Q (.ok a s) (.ok a t)
  | error {e : ε} {s : σ} {t : τ} : E s t →
      Results B E Q (.error (.fault e) s) (.error (.fault e) t)
  | escape {e : ε} {s : σ} {r : EStateM.Result (Stop ε) τ α} : B e →
      Results B E Q (.error (.fault e) s) r
  | fuel {s : σ} {t : τ} : Results B E Q (.error .fuel s) (.error .fuel t)

theorem Results.mono {r : EStateM.Result (Stop ε) σ α} {r' : EStateM.Result (Stop ε) τ α}
    (h : Results B E Q r r') (hq : ∀ a s t, Q a s t → Q' a s t) : Results B E Q' r r' := by
  cases h with
  | ok h => exact .ok (hq _ _ _ h)
  | error he => exact .error he
  | escape hb => exact .escape hb
  | fuel => exact .fuel

theorem ends {x : Comp ε σ α} {x' : Comp ε τ α}
    (h : ∀ s t, P s t → Results B E Q (x s) (x' t)) :
    Sim B E P Q (Partial.ends x) (Partial.ends x') where
  forth hp r hr := by
    have hres := h _ _ hp
    rw [ends_iff.mp hr] at hres
    generalize hr' : x' _ = r₁ at hres
    cases r with
    | ok a s =>
      cases hres with | ok hq => exact .inr ⟨.ok _ _, hr', .ok hq⟩
    | error e s =>
      cases hres with
      | error he => exact .inr ⟨.error _ _, hr', .error he⟩
      | escape hb => exact .inl (.intro hb)
  back hp r' hr' := by
    have hres := h _ _ hp
    rw [ends_iff.mp hr'] at hres
    generalize hr : x _ = r₁ at hres
    cases r' with
    | ok a t =>
      cases hres with
      | ok hq => exact ⟨.ok _ _, hr, .inr (.ok hq)⟩
      | escape hb => exact ⟨.error _ _, hr, .inl (.intro hb)⟩
    | error e t =>
      cases hres with
      | error he => exact ⟨.error _ _, hr, .inr (.error he)⟩
      | escape hb => exact ⟨.error _ _, hr, .inl (.intro hb)⟩

/-! ### Loops -/

section loops
variable {x test : Sem ε σ Bool} {body : Sem ε σ Unit} {test' : Sem ε τ Bool}
  {body' : Sem ε τ Unit} {R : σ → τ → Prop}

theorem repeatM (h : Sim B E R (fun _ => R) body body') (n : Nat) :
    Sim B E R (fun _ => R) (Partial.repeatM body n) (Partial.repeatM body' n) := by
  induction n with
  | zero => exact .pure fun _ _ h => h
  | succ n ih => exact h.bind fun _ => ih

theorem whileDo (ht : Sim B E P (fun b => bif b then I else R) test test')
    (hb : Sim B E I (fun _ => P) body body') :
    Sim B E P (fun _ => R) (Sem.whileDo test body) (Sem.whileDo test' body') where
  forth := by
    intro s t hp r hr
    induction hr generalizing t with
    | stop h =>
      rcases ht.forth hp h with hesc | ⟨r', h', hcor⟩
      · cases hesc
      · cases hcor with | ok hq => exact .inr ⟨_, .stop h', .ok hq⟩
    | testFault h =>
      rcases ht.forth hp h with hesc | ⟨r', h', hcor⟩
      · cases hesc with | intro hb => exact .inl (.intro hb)
      · cases hcor with | error he => exact .inr ⟨_, .testFault h', .error he⟩
    | bodyFault h₁ h₂ =>
      rcases ht.forth hp h₁ with hesc | ⟨r', h₁', hcor⟩
      · cases hesc
      · cases hcor with
        | ok hi =>
          rcases hb.forth hi h₂ with hesc | ⟨r', h₂', hcor⟩
          · cases hesc with | intro hb => exact .inl (.intro hb)
          · cases hcor with | error he => exact .inr ⟨_, .bodyFault h₁' h₂', .error he⟩
    | again h₁ h₂ _ ih =>
      rcases ht.forth hp h₁ with hesc | ⟨r', h₁', hcor⟩
      · cases hesc
      · cases hcor with
        | ok hi =>
          rcases hb.forth hi h₂ with hesc | ⟨r', h₂', hcor⟩
          · cases hesc
          · cases hcor with
            | ok hp' =>
              rcases ih hp' with hesc | ⟨r', h', hcor⟩
              · exact .inl hesc
              · exact .inr ⟨r', .again h₁' h₂' h', hcor⟩
  back := by
    intro s t hp r' hr'
    induction hr' generalizing s with
    | stop h =>
      obtain ⟨r, h', hesc | hcor⟩ := ht.back hp h
      · cases hesc with | intro hb => exact ⟨_, .testFault h', .inl (.intro hb)⟩
      · cases hcor with | ok hq => exact ⟨_, .stop h', .inr (.ok hq)⟩
    | testFault h =>
      obtain ⟨r, h', hesc | hcor⟩ := ht.back hp h
      · cases hesc with | intro hb => exact ⟨_, .testFault h', .inl (.intro hb)⟩
      · cases hcor with | error he => exact ⟨_, .testFault h', .inr (.error he)⟩
    | bodyFault h₁ h₂ =>
      obtain ⟨r, h₁', hesc | hcor⟩ := ht.back hp h₁
      · cases hesc with | intro hb => exact ⟨_, .testFault h₁', .inl (.intro hb)⟩
      · cases hcor with
        | ok hi =>
          obtain ⟨r, h₂', hesc | hcor⟩ := hb.back hi h₂
          · cases hesc with | intro hb => exact ⟨_, .bodyFault h₁' h₂', .inl (.intro hb)⟩
          · cases hcor with | error he => exact ⟨_, .bodyFault h₁' h₂', .inr (.error he)⟩
    | again h₁ h₂ _ ih =>
      obtain ⟨r, h₁', hesc | hcor⟩ := ht.back hp h₁
      · cases hesc with | intro hb => exact ⟨_, .testFault h₁', .inl (.intro hb)⟩
      · cases hcor with
        | ok hi =>
          obtain ⟨r, h₂', hesc | hcor⟩ := hb.back hi h₂
          · cases hesc with | intro hb => exact ⟨_, .bodyFault h₁' h₂', .inl (.intro hb)⟩
          · cases hcor with
            | ok hp' =>
              obtain ⟨r, h', hcor⟩ := ih hp'
              exact ⟨r, .again h₁' h₂' h', hcor⟩

/-- A counted loop, implemented by a loop that tests a counter. -/
theorem countdown {C I : Nat → σ → τ → Prop} {n : Nat}
    (htest : ∀ k ≤ n, ∀ s t, C k s t →
      ∃ t', (∀ r, test' t r ↔ r = .ok (decide (0 < k)) t') ∧ I k s t')
    (hbody : ∀ k < n, Sim B E (I (k + 1)) (fun _ => C k) body body') :
    Sim B E (C n) (fun _ => I 0) (Partial.repeatM body n) (Sem.whileDo test' body') := by
  induction n with
  | zero =>
    rw [Sem.whileDo_unfold]
    exact .right (htest 0 (le_refl 0)) (.pure fun _ _ h => h)
  | succ n ih =>
    rw [Sem.whileDo_unfold]
    refine .right (htest (n + 1) (le_refl _)) ?_
    rw [decide_eq_true (Nat.succ_pos n), if_pos rfl]
    refine (hbody n (Nat.lt_succ_self n)).bind fun _ => ?_
    exact ih (fun k hk => htest k (by omega)) fun k hk => hbody k (by omega)

end loops

/-! ### Simulations without escapes -/

section exact
variable {υ : Type} {E' P₂ : τ → υ → Prop} {Q₂ : α → τ → υ → Prop} {m'' : Sem ε υ α}

theorem exact (h : Sim B E P Q m m')
    (hB : ∀ s t, P s t → ∀ e s', m s (.error e s') → ¬ B e) :
    Sim (fun _ => False) E P Q m m' where
  forth hp r hr := by
    rcases h.forth hp hr with hesc | hcor
    · cases hesc with | intro hb => exact absurd hb (hB _ _ hp _ _ hr)
    · exact .inr hcor
  back hp r' hr' := by
    obtain ⟨r, hr, hesc | hcor⟩ := h.back hp hr'
    · cases hesc with | intro hb => exact absurd hb (hB _ _ hp _ _ hr)
    · exact ⟨r, hr, .inr hcor⟩

theorem exact_forth (h : Sim (fun _ => False) E P Q m m') {s : σ} {t : τ} (hp : P s t)
    {r : Outcome ε σ α} (hr : m s r) : ∃ r', m' t r' ∧ Corresponds E Q r r' := by
  rcases h.forth hp hr with hesc | hcor
  · cases hesc with | intro hb => exact absurd hb not_false
  · exact hcor

theorem exact_back (h : Sim (fun _ => False) E P Q m m') {s : σ} {t : τ} (hp : P s t)
    {r' : Outcome ε τ α} (hr' : m' t r') : ∃ r, m s r ∧ Corresponds E Q r r' := by
  obtain ⟨r, hr, hesc | hcor⟩ := h.back hp hr'
  · cases hesc with | intro hb => exact absurd hb not_false
  · exact ⟨r, hr, hcor⟩

theorem symm (h : Sim (fun _ => False) E P Q m m') :
    Sim (fun _ => False) (fun t s => E s t) (fun t s => P s t) (fun a t s => Q a s t) m' m where
  forth hp r hr := by
    obtain ⟨r', hr', hcor⟩ := h.exact_back hp hr
    refine .inr ⟨r', hr', ?_⟩
    cases hcor with
    | ok hq => exact .ok hq
    | error he => exact .error he
  back hp r' hr' := by
    obtain ⟨r, hr, hcor⟩ := h.exact_forth hp hr'
    refine ⟨r, hr, .inr ?_⟩
    cases hcor with
    | ok hq => exact .ok hq
    | error he => exact .error he

theorem trans (h : Sim (fun _ => False) E P Q m m') (h' : Sim (fun _ => False) E' P₂ Q₂ m' m'') :
    Sim (fun _ => False) (Relation.Comp E E') (Relation.Comp P P₂)
      (fun a => Relation.Comp (Q a) (Q₂ a)) m m'' where
  forth hp r hr := by
    obtain ⟨t, hp, hp'⟩ := hp
    obtain ⟨r', hr', hcor⟩ := h.exact_forth hp hr
    obtain ⟨r'', hr'', hcor'⟩ := h'.exact_forth hp' hr'
    refine .inr ⟨r'', hr'', ?_⟩
    cases hcor with
    | ok hq => cases hcor' with | ok hq' => exact .ok ⟨_, hq, hq'⟩
    | error he => cases hcor' with | error he' => exact .error ⟨_, he, he'⟩
  back hp r'' hr'' := by
    obtain ⟨t, hp, hp'⟩ := hp
    obtain ⟨r', hr', hcor'⟩ := h'.exact_back hp' hr''
    obtain ⟨r, hr, hcor⟩ := h.exact_back hp hr'
    refine ⟨r, hr, .inr ?_⟩
    cases hcor with
    | ok hq => cases hcor' with | ok hq' => exact .ok ⟨_, hq, hq'⟩
    | error he => cases hcor' with | error he' => exact .error ⟨_, he, he'⟩

end exact

/-- What the first side is known to end in may be used. -/
theorem and_left {T : α → σ → Prop} (h : Sim B E P Q m m')
    (hT : ∀ s t, P s t → ∀ a s', m s (.ok a s') → T a s') :
    Sim B E P (fun a s t => T a s ∧ Q a s t) m m' where
  forth hp r hr := by
    rcases h.forth hp hr with hesc | ⟨r', hr', hcor⟩
    · exact .inl hesc
    · refine .inr ⟨r', hr', ?_⟩
      cases hcor with
      | ok hq => exact .ok ⟨hT _ _ hp _ _ hr, hq⟩
      | error he => exact .error he
  back hp r' hr' := by
    obtain ⟨r, hr, hesc | hcor⟩ := h.back hp hr'
    · exact ⟨r, hr, .inl hesc⟩
    · refine ⟨r, hr, .inr ?_⟩
      cases hcor with
      | ok hq => exact .ok ⟨hT _ _ hp _ _ hr, hq⟩
      | error he => exact .error he

end Sim

/-- The outcomes of a computation whose result is known. -/
theorem ends_iff_of_ok {x : Comp ε σ α} {s s' : σ} {a : α} (h : x s = .ok a s')
    (r : Outcome ε σ α) : ends x s r ↔ r = .ok a s' := by
  rw [ends_iff, h, embed_eq_ok]

end Covm.Partial
